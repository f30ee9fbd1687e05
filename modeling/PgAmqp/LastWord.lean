import PgAmqp.Verdicts

/-!
# The broker's last word about taking messages

`blocked` says what the last `connection.blocked` or `connection.unblocked` said that was
read from the connection the entry holds. The flag is set after the warning, so a cancel
that unwinds from the warning leaves the frame read and the flag down; without such a
cancel the flag is the last word in every run, and no message is written against it.
-/
namespace PgAmqp

open ProgramLogic Transition

/-- What the broker said last, in the frames read from a connection. -/
def lastWord (fs : List Frame) : Bool := (fs.filterMap Frame.word).getLast?.getD false

@[simp] theorem lastWord_nil : lastWord [] = false := rfl

@[simp] theorem lastWord_concat (fs : List Frame) (f : Frame) :
    lastWord (fs ++ [f]) = f.word.getD (lastWord fs) := by
  unfold lastWord
  rw [List.filterMap_append]
  cases hw : f.word with
  | none => simp [hw]
  | some w => simp [hw]

/-- The frames read from the connection that an entry holds. -/
def BrokerState.consumed (bs : BrokerState) : List Frame := (bs.conn.map Connection.consumed).getD []

/-- The flag is the last word. -/
def Mirrors (bs : BrokerState) : Prop := bs.blocked = lastWord bs.consumed

/-- The flag is the last word, and from a connection that is being made no frame was read. -/
structure Heard (p : Stage × Cell) : Prop where
  mirrors : Mirrors p.2.bs
  unread : p.1 = .dial ∨ p.1 = .shake → p.2.bs.consumed = []

/-- A write is not made against the last word, and a call is not refused against it. -/
def Event.Heeding : Event → Prop
  | .basicPublish k _ _ _ => lastWord k.consumed = false
  | .refused conn => ∃ k, conn = some k ∧ lastWord k.consumed = true
  | _ => True

section Heard

variable {L : Lapses} {o : Outcomes} {p q : Stage × Cell} {c : Cell}

/-- A change that leaves the flag and what was read as they are. -/
theorem Heard.keep (h : Heard p) (hb : q.2.bs.blocked = p.2.bs.blocked)
    (hc : q.2.bs.consumed = p.2.bs.consumed) (hg : q.1 = .dial ∨ q.1 = .shake → p.2.bs.consumed = []) :
    Heard q :=
  ⟨by unfold Mirrors; rw [hb, hc]; exact h.mirrors, fun hq => hc.trans (hg hq)⟩

theorem Cell.timed_consumed (c : Cell) (ms : Nat) : (c.timed ms).bs.consumed = c.bs.consumed := by
  simp only [BrokerState.consumed, Cell.timed, Cell.modified_bs, Option.map_map]
  rfl

theorem Cell.asked_consumed {k : Connection} (hk : c.bs.conn = some k) (kind : Rpc) (a : Answer) :
    (c.asked kind a k).bs.consumed = c.bs.consumed := by
  unfold BrokerState.consumed
  rw [hk]
  exact (k.answered_keeps kind a).2.1

theorem Connection.written_consumed (k : Connection) (channel : Nat) (m : Msg) (w : Write) :
    (k.written channel m w).consumed = k.consumed := by
  unfold Connection.written
  split <;> rfl

theorem Serve.heard (hL : ¬ L.unheard) (h : Serve L p q) (hp : Heard p) : Heard q := by
  cases h with
  | hear f rest hc hg =>
    rename_i g c
    obtain ⟨k, hk⟩ := Option.isSome_iff_exists.mp hc
    have hm : c.bs.blocked = lastWord k.consumed := by simpa [Mirrors, BrokerState.consumed, hk] using hp.mirrors
    refine ⟨?_, fun hq => ?_⟩
    · unfold Mirrors BrokerState.consumed
      rw [Cell.heard_bs]
      simp [Cell.taken, hk, hm]
    · rcases hg with rfl | rfl <;> simp at hq
  | mishear _ _ _ hu => exact absurd hu hL
  | drop k hk => exact ⟨rfl, fun _ => rfl⟩
  | declare k d a hk => exact hp.keep rfl (Cell.asked_consumed hk _ _) hp.unread
  | finish k kind a hk _ => exact hp.keep rfl (Cell.asked_consumed hk _ _) hp.unread
  | write k channel m w hk _ =>
    refine hp.keep rfl ?_ hp.unread
    unfold BrokerState.consumed
    rw [hk]
    exact Connection.written_consumed ..
  | flush => exact hp.keep rfl (Cell.timed_consumed _ _) (by simp)
  | restore => exact hp.keep rfl (Cell.timed_consumed _ _) (by simp)
  | _ => exact hp.keep rfl rfl hp.unread

theorem Change.heard (hL : ¬ L.unheard) (h : Change L o p q) (hp : Heard p) : Heard q := by
  cases h with
  | serve h => exact h.heard hL hp
  | dial h =>
    cases h with
    | @new c hc _ =>
      have hm := hp.mirrors
      unfold Mirrors BrokerState.consumed at hm
      rw [hc] at hm
      exact ⟨hm, fun _ => rfl⟩
    | shake n => exact hp.keep rfl (Cell.timed_consumed _ _) fun _ => hp.unread (.inl rfl)
    | ask k kind a hk _ => exact hp.keep rfl (Cell.asked_consumed hk _ _) hp.unread
    | @connect c =>
      have hread : (c.connected).bs.consumed = [] := (Cell.timed_consumed _ _).trans (hp.unread (.inr rfl))
      refine ⟨?_, fun _ => hread⟩
      unfold Mirrors
      rw [hread]
      rfl
    | unwind hh => exact hp.keep rfl rfl (by simp)
    | _ => exact hp.keep rfl rfl hp.unread
  | close k hk => exact ⟨rfl, fun _ => rfl⟩
  | free hc _ =>
    refine hp.keep ?_ ?_ hp.unread
    · simp only [Cell.freed, Cell.modified_bs]
      split <;> rfl
    · unfold BrokerState.consumed
      rw [Cell.freed_conn]
  | _ => exact hp.keep rfl rfl hp.unread

theorem Chain.heard (hL : ¬ L.unheard) (h : Chain L o p q) (hp : Heard p) : Heard q :=
  h.keeps (fun _ _ => Change.heard hL) hp

/-- A record without a write or a refusal against the last word. -/
def Heeded (p : Stage × Cell) : Prop := Heard p ∧ ∀ e ∈ p.2.log, e.Heeding

theorem heeding_append {e : Event} {log : List Event} (h : ∀ e ∈ log, e.Heeding) (he : e.Heeding) :
    ∀ e' ∈ log ++ [e], e'.Heeding := by
  intro e' hm
  rcases List.mem_append.mp hm with hm | hm
  · exact h e' hm
  · exact List.mem_singleton.mp hm ▸ he

theorem Change.heeded (hL : ¬ L.unheard) (h : Change L o p q) (hp : Heeded p) : Heeded q := by
  refine ⟨h.heard hL hp.1, ?_⟩
  cases h with
  | serve h =>
    cases h with
    | @hear g c f rest _ _ =>
      rw [Cell.heard_log]
      intro e he
      refine (List.mem_append.mp he).elim (hp.2 e) fun he => ?_
      obtain ⟨r, rfl⟩ := Cell.noted_warning _ f he
      trivial
    | @write c k channel m w hk hb =>
      refine heeding_append hp.2 ?_
      have hm := hp.1.mirrors
      unfold Mirrors BrokerState.consumed at hm
      rw [hb, hk] at hm
      exact hm.symm
    | @refuse c hc hb =>
      obtain ⟨k, hk⟩ := Option.isSome_iff_exists.mp hc
      have hm := hp.1.mirrors
      unfold Mirrors BrokerState.consumed at hm
      rw [hb, hk] at hm
      exact heeding_append hp.2 ⟨k, hk, hm.symm⟩
    | warn => exact heeding_append hp.2 trivial
    | mishear => exact heeding_append hp.2 trivial
    | declare => exact heeding_append hp.2 trivial
    | accept => exact heeding_append hp.2 trivial
    | drop => exact heeding_append hp.2 trivial
    | finish => exact heeding_append hp.2 trivial
    | _ => exact hp.2
  | dial h =>
    cases h with
    | «open» => exact heeding_append hp.2 trivial
    | ask => exact heeding_append hp.2 trivial
    | _ => exact hp.2
  | close => exact heeding_append (heeding_append hp.2 trivial) trivial
  | _ => exact hp.2

end Heard

theorem mirrors_lasting : Lasting (fun L _ => ¬ L.unheard) fun _ bs => Mirrors bs where
  fresh := fun _ _ => rfl
  grow := fun _ _ h => h
  chain := fun hL h hc => (hc.heard hL ⟨h, by simp⟩).mirrors

/-- No cancel is pending at the warning with which a publish call notes a blocked connection. -/
def Attentive (_ : Session) (st : Step) : Prop := ∀ b, ¬ Session.mishears st b

/-- A pass that comes to `local_amqp_get_bs` in `c` decides in `c'` whether to fail fast. -/
def Decides (o : Outcomes) (b : Int) (channel : Nat) (c c' : Cell) : Prop :=
  ∃ c₂, localAmqpGetBs o b c = .ok () c₂ ∧ c₂.bs.conn.isSome = true ∧
    (channel = 1 ∨ ¬ c₂.bs.inerror = true) ∧ localAmqpDrainReturns o c₂ = .ok 0 c'

section Deciding

variable {s : Session} {o : Outcomes} {b : Int} {a : PublishArgs} {channel : Nat} {c c' : Cell}

theorem drained_reading {r : Int} (hconn : c.bs.conn.isSome = true)
    (hdrain : localAmqpDrainReturns o c = .ok r c') : Reading .none (.rest, c) .rest c' := by
  have h : wp (localAmqpDrainReturns o) (fun _ => Reading .none (.rest, c) .rest)
      (Unless .none o (Reading .none (.rest, c) .rest)) c :=
    localAmqpDrainReturns_served (.inl rfl) ⟨.refl, hconn⟩
  have hread := wp_returned h hdrain
  exact hread

/-- The connection of a pass comes with the flag in step, and a read that returns keeps it so. -/
theorem Decides.mirrors (hd : Decides o b channel c c') (h : Mirrors c.bs) : Mirrors c'.bs := by
  obtain ⟨c₂, hget, hconn, -, hdrain⟩ := hd
  have hchain := localAmqpGetBs_chain (L := ⟨True, False, True⟩) (o := o) (c := c) (fun _ => trivial) b
    fun _ => trivial
  have h₂ : Heard (.rest, c₂) := (wp_returned hchain hget).heard id ⟨h, by simp⟩
  exact (((drained_reading hconn hdrain).1.chain (o := o)).heard id h₂).mirrors

/-- Every pass of a call starts with the flag in step. -/
theorem passes_mirrors (hidle : Idle c.bs) (h : Mirrors c.bs) {c₁ : Cell}
    (hc : c₁ ∈ c.passes o b a channel) : Mirrors c₁.bs := by
  unfold Cell.passes at hc
  split at hc
  · cases hc
  · rcases List.mem_cons.mp hc with rfl | hc
    · exact h
    · rcases publishPass_goesBack (c := c.numbered) o b ⟨c.backend.nextCall, a.content⟩ a.badDeliveryMode channel
        hidle with ⟨hnone, -⟩ | ⟨c₂, c₃, hsome, -, hg, -⟩
      · simp [hnone] at hc
      · rw [hsome] at hc
        obtain rfl : c₁ = c₃ := by simpa using hc
        unfold Mirrors BrokerState.consumed
        rw [hg.blocked, hg.conn]
        rfl

/-- Where no cancel is pending at that warning, the flag is the last word at every point where
a publish call decides whether to fail fast, every message is written on a connection whose
last word is not `connection.blocked`, and every call that is refused as blocked holds a
connection whose last word is that. -/
theorem blocked_is_last_word (hs : Runs Attentive s) :
    (∀ o b a channel, ∀ c ∈ (s.cell b).passes o b a channel, ∀ c', Decides o b channel c c' →
      ∃ k, c'.bs.conn = some k ∧ c'.bs.blocked = lastWord k.consumed) ∧
    ∀ st, Attentive s st → ∀ b,
      (∀ k channel m w, .basicPublish k channel m w ∈ logOf b (trace st s).log → lastWord k.consumed = false) ∧
      ∀ conn, .refused conn ∈ logOf b (trace st s).log → ∃ k, conn = some k ∧ lastWord k.consumed = true := by
  refine ⟨fun o b a channel c hc c' hd => ?_, fun st hst b => ?_⟩
  · have hentry : Mirrors (s.entry b) := mirrors_lasting.holds (fun _ _ h => h b) hs
    have hm : Mirrors c'.bs := hd.mirrors (passes_mirrors ((Runs.shaped hs).idle b) hentry hc)
    have hconn : c'.bs.conn.isSome = true := by
      obtain ⟨c₂, -, hconn, -, hdrain⟩ := hd
      exact (drained_reading hconn hdrain).2
    obtain ⟨k, hk⟩ := Option.isSome_iff_exists.mp hconn
    refine ⟨k, hk, ?_⟩
    unfold Mirrors BrokerState.consumed at hm
    rwa [hk] at hm
  · have hall : ∀ e ∈ logOf b (trace st s).log, e.Heeding :=
      mirrors_lasting.events (fun hL h hc => (hc.keeps (I := Heeded) (fun _ _ => Change.heeded hL)
        ⟨⟨h, by simp⟩, by simp [Session.start]⟩).2) (fun _ _ h => h b) hs hst
    exact ⟨fun k channel m w he => hall _ he, fun conn he => hall _ he⟩

/-- A step without a cancel misses nothing. -/
theorem attentive_calm {st : Step} (ho : ∀ b, (st.outcomes b).Calm) : Attentive s st := by
  rintro b ⟨-, ⟨n, b', hu⟩, -⟩
  simp [ho b n] at hu

/-- A pass on a connection on which nothing waits. -/
theorem decides_good {k : Connection} (hk : c.bs.conn = some k) (hq : k.queue = []) (herr : c.bs.inerror = false)
    (channel : Nat) : Decides .good b channel c (c.link.ticked .poll) := by
  have hget : wp (localAmqpGetBs .good b) (fun _ c₂ => c₂ = c.link) (fun _ _ => False) c := by
    rw [localAmqpGetBs_live .good b hk]
  have hdrain : wp (localAmqpDrainReturns .good) (fun r c' => r = 0 ∧ c' = c.link.ticked .poll)
      (fun _ _ => False) c.link := by
    unfold localAmqpDrainReturns
    rw [wp_bind, wp_getBs, Cell.link_bs, hk]
    dsimp only
    rw [wp_bind, wp_tick, hq]
    exact ⟨rfl, rfl⟩
  obtain ⟨_, c₂, hgot, rfl⟩ := wp_ok hget
  obtain ⟨r, c', hdrained, rfl, rfl⟩ := wp_ok hdrain
  exact ⟨_, hgot, by simp [hk], .inr (by simp [herr]), hdrained⟩

end Deciding

/-- A write against the last word. -/
def Event.unheeding : Event → Bool
  | .basicPublish k _ _ _ => lastWord k.consumed
  | _ => false

/-- A resource alarm goes off, and a cancel is pending at the warning that notes it. -/
def Outcomes.alarmed : Outcomes := { Outcomes.good with
  poll := fun _ => ⟨[.connectionBlocked], true⟩
  unwind := fun _ r => r = .blocked 1 }

/-- The alarm was read by a call that the cancel unwound. -/
def deafened : Session :=
  run next [.good (.publish (.to1 "a")), ⟨.publish (.to1 "b"), fun _ => .alarmed⟩] (.loaded {} 0)

theorem deafened_entry :
    (deafened.entry 1).blocked = false ∧ (deafened.entry 1).inerror = false ∧
    (deafened.entry 1).conn.map Connection.consumed = some [.connectionBlocked] ∧
    (deafened.entry 1).conn.map Connection.queue = some [] ∧
    (logOf 1 (trace (.good (.publish (.to1 "c"))) deafened).log).any Event.unheeding = true := by
  decide +kernel

/-- Behind such a cancel the flag is down although the broker has blocked publishers, and the
next message is written. -/
theorem blocked_is_missed :
    (¬ ∀ s, Runs (fun _ _ => True) s → ∀ o b a channel, ∀ c ∈ (s.cell b).passes o b a channel,
      ∀ c', Decides o b channel c c' → ∃ k, c'.bs.conn = some k ∧ c'.bs.blocked = lastWord k.consumed) ∧
    ¬ ∀ s, Runs (fun _ _ => True) s → ∀ st b k channel m w,
      .basicPublish k channel m w ∈ logOf b (trace st s).log → lastWord k.consumed = false := by
  have hreached : Runs (fun _ _ => True) deafened :=
    .run (.init (Session.loaded_initial {} 0)) _ (Admits.always _ _)
  have hentry := deafened_entry
  generalize deafened = s at hreached hentry
  obtain ⟨hblocked, herr, hconsumed, hqueue, hwrites⟩ := hentry
  obtain ⟨k, hk, hread⟩ := Option.map_eq_some_iff.mp hconsumed
  rw [hk] at hqueue
  refine ⟨fun h => ?_, fun h => ?_⟩
  · have hmem : (s.cell 1).numbered ∈ (s.cell 1).passes .good 1 { PublishArgs.to1 "c" with message := none } 2 := by
      simp [Cell.passes, PublishArgs.bodyTooLarge]
    have hd : Decides .good 1 2 (s.cell 1).numbered ((s.cell 1).numbered.link.ticked .poll) :=
      decides_good (c := (s.cell 1).numbered) hk (Option.some.inj hqueue) herr 2
    obtain ⟨k', hk', hflag⟩ := h s hreached .good 1 _ 2 _ hmem _ hd
    have hk' : (s.entry 1).conn = some k' := hk'
    have hflag : (s.entry 1).blocked = lastWord k'.consumed := hflag
    rw [hk] at hk'
    rw [hblocked, ← Option.some.inj hk', hread] at hflag
    cases hflag
  · obtain ⟨e, he, hwrite⟩ := List.any_eq_true.mp hwrites
    cases e with
    | basicPublish k' channel m w =>
      exact absurd (h s hreached _ 1 k' channel m w he) (by simpa [Event.unheeding] using hwrite)
    | _ => cases hwrite

theorem oneAcknowledged_listens :
    (oneAcknowledged.entry 1).inerror = false ∧
    (oneAcknowledged.entry 1).conn.map Connection.queue = some [] := by
  decide +kernel

/-- At the decision of the next publish call the flag is the last word. -/
theorem oneAcknowledged_mirrors : ∃ k, (oneAcknowledged.entry 1).conn = some k ∧
    (oneAcknowledged.entry 1).blocked = lastWord k.consumed := by
  have hruns : Runs Attentive oneAcknowledged := by
    refine .run (.init (Session.loaded_initial _ _)) _ (And.intro ?_ trivial)
    exact attentive_calm fun _ _ _ => rfl
  have hentry := oneAcknowledged_listens
  generalize oneAcknowledged = s at hruns hentry ⊢
  obtain ⟨herr, hqueue⟩ := hentry
  obtain ⟨k, hk, hq⟩ := Option.map_eq_some_iff.mp hqueue
  have hmem : (s.cell 1).numbered ∈ (s.cell 1).passes .good 1 { PublishArgs.to1 "b" with message := none } 2 := by
    simp [Cell.passes, PublishArgs.bodyTooLarge]
  have hd : Decides .good 1 2 (s.cell 1).numbered ((s.cell 1).numbered.link.ticked .poll) :=
    decides_good (c := (s.cell 1).numbered) hk hq herr 2
  exact (blocked_is_last_word hruns).1 .good 1 _ 2 _ hmem _ hd

end PgAmqp
