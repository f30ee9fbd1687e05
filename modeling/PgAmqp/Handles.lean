import Mathlib.Data.Multiset.Range

/-!
# Handles that are made, used and given back

A pool gives out handles that are numbered upwards, and some party holds each of them until
it is given back. `Lawful` is the discipline of a party: it uses and gives back only what
it holds. It is local, since what others hold can be framed off, and it has two global
consequences: every handle made is given back once or still held, and none is touched
after it was given back.
-/
namespace Handles

/-- What an event does to a handle. -/
inductive Deed where
  | use : Nat → Deed
  | free : Nat → Deed
  deriving DecidableEq, Repr

def Deed.handle : Deed → Nat
  | .use i => i
  | .free i => i

section Lawful

variable {ε : Type} {deed : ε → Option Deed}

/-- From the handles `held`, when `next` is the next one to be made, the events lead to
`held'` and `next'`. Making a handle is no event. -/
inductive Lawful (deed : ε → Option Deed) :
    Multiset Nat → Nat → List ε → Multiset Nat → Nat → Prop where
  | done {held next} : Lawful deed held next [] held next
  | make {held next evs held' next'} :
      Lawful deed (next ::ₘ held) (next + 1) evs held' next' → Lawful deed held next evs held' next'
  | other {held next e evs held' next'} : deed e = none →
      Lawful deed held next evs held' next' → Lawful deed held next (e :: evs) held' next'
  | use {held next e evs held' next'} (i : Nat) : deed e = some (.use i) →
      Lawful deed (i ::ₘ held) next evs held' next' →
      Lawful deed (i ::ₘ held) next (e :: evs) held' next'
  | free {held next e evs held' next'} (i : Nat) : deed e = some (.free i) →
      Lawful deed held next evs held' next' →
      Lawful deed (i ::ₘ held) next (e :: evs) held' next'

variable {held held' held'' : Multiset Nat} {next next' next'' : Nat} {evs evs' : List ε}

theorem Lawful.trans (h : Lawful deed held next evs held' next')
    (h' : Lawful deed held' next' evs' held'' next'') :
    Lawful deed held next (evs ++ evs') held'' next'' := by
  induction h with
  | done => exact h'
  | make _ ih => exact .make (ih h')
  | other he _ ih => exact .other he (ih h')
  | use i he _ ih => exact .use i he (ih h')
  | free i he _ ih => exact .free i he (ih h')

/-- What the party does not touch may be held beside it. -/
theorem Lawful.frame (h : Lawful deed held next evs held' next') (rest : Multiset Nat) :
    Lawful deed (held + rest) next evs (held' + rest) next' := by
  induction h with
  | done => exact .done
  | make _ ih =>
    rw [Multiset.cons_add] at ih
    exact .make ih
  | other he _ ih => exact .other he ih
  | use i he _ ih =>
    rw [Multiset.cons_add] at ih ⊢
    exact .use i he ih
  | free i he _ ih =>
    rw [Multiset.cons_add]
    exact .free i he ih

/-- Events that touch no handle. -/
theorem Lawful.quiet (h : ∀ e ∈ evs, deed e = none) : Lawful deed held next evs held next := by
  induction evs with
  | nil => exact .done
  | cons e rest ih =>
    obtain ⟨he, hrest⟩ := List.forall_mem_cons.mp h
    exact .other he (ih hrest)

/-- The handles given back, in order. -/
def freed (deed : ε → Option Deed) (evs : List ε) : List Nat :=
  evs.filterMap fun e => match deed e with
    | some (.free i) => some i
    | _ => none

theorem freed_cons_other {e : ε} (h : ∀ i, deed e ≠ some (.free i)) (evs : List ε) :
    freed deed (e :: evs) = freed deed evs := by
  refine List.filterMap_cons_none ?_
  split
  · exact absurd ‹_› (h _)
  · rfl

theorem freed_cons_free {e : ε} {i : Nat} (h : deed e = some (.free i)) (evs : List ε) :
    freed deed (e :: evs) = i :: freed deed evs :=
  List.filterMap_cons_some (by rw [h])

/-- What was given back and what is held in the end is what was held and what was made. -/
theorem Lawful.account (h : Lawful deed held next evs held' next') :
    (freed deed evs : Multiset Nat) + held' + Multiset.range next = held + Multiset.range next' := by
  induction h with
  | done => simp [freed]
  | @make held next _ _ _ _ ih =>
    rw [Multiset.range_succ, Multiset.add_cons, Multiset.cons_add] at ih
    exact (Multiset.cons_inj_right next).mp ih
  | other he _ ih => rwa [freed_cons_other (by simp [he])]
  | use i he _ ih => rwa [freed_cons_other (by simp [he])]
  | free i he _ ih =>
    rw [freed_cons_free he, ← Multiset.cons_coe, Multiset.cons_add, Multiset.cons_add, ih,
      Multiset.cons_add]

/-- Nobody holds a handle twice, or one that was not made. -/
structure Sound (held : Multiset Nat) (next : Nat) : Prop where
  nodup : held.Nodup
  made : ∀ i ∈ held, i < next

theorem Sound.make (h : Sound held next) : Sound (next ::ₘ held) (next + 1) where
  nodup := Multiset.nodup_cons.mpr ⟨fun hi => Nat.lt_irrefl _ (h.made next hi), h.nodup⟩
  made := by
    intro i hi
    rcases Multiset.mem_cons.mp hi with rfl | hi
    · exact Nat.lt_succ_self i
    · exact Nat.lt_succ_of_lt (h.made i hi)

theorem Sound.rest {i : Nat} (h : Sound (i ::ₘ held) next) : Sound held next :=
  ⟨(Multiset.nodup_cons.mp h.nodup).2, fun j hj => h.made j (Multiset.mem_cons_of_mem hj)⟩

/-- Only what is held from the start or made later is touched. -/
theorem Lawful.touched (h : Lawful deed held next evs held' next') {e : ε} (he : e ∈ evs) {d : Deed}
    (hd : deed e = some d) : d.handle ∈ held ∨ next ≤ d.handle := by
  induction h with
  | done => cases he
  | make _ ih =>
    rcases ih he with hi | hi
    · rcases Multiset.mem_cons.mp hi with hi | hi
      · exact .inr (Nat.le_of_eq hi.symm)
      · exact .inl hi
    · exact .inr (Nat.le_of_succ_le hi)
  | other hnone _ ih =>
    rcases List.mem_cons.mp he with rfl | he
    · rw [hnone] at hd
      cases hd
    · exact ih he
  | use i huse _ ih =>
    rcases List.mem_cons.mp he with rfl | he
    · obtain rfl := Option.some.inj (huse.symm.trans hd)
      exact .inl (Multiset.mem_cons_self _ _)
    · exact ih he
  | free i hfree _ ih =>
    rcases List.mem_cons.mp he with rfl | he
    · obtain rfl := Option.some.inj (hfree.symm.trans hd)
      exact .inl (Multiset.mem_cons_self _ _)
    · exact (ih he).imp_left Multiset.mem_cons_of_mem

/-- The later event does not touch what the earlier one gave back. -/
def FreesLast (deed : ε → Option Deed) (e e' : ε) : Prop :=
  ∀ i, deed e = some (.free i) → ∀ d, deed e' = some d → d.handle ≠ i

theorem FreesLast.other {e : ε} (h : ∀ i, deed e ≠ some (.free i)) (e' : ε) : FreesLast deed e e' :=
  fun i hi => absurd hi (h i)

/-- No handle is touched after it was given back. -/
theorem Lawful.freesLast (h : Lawful deed held next evs held' next') (hs : Sound held next) :
    evs.Pairwise (FreesLast deed) := by
  induction h with
  | done => exact .nil
  | make _ ih => exact ih hs.make
  | other he _ ih => exact .cons (fun e' _ => .other (by simp [he]) e') (ih hs)
  | use i he _ ih => exact .cons (fun e' _ => .other (by simp [he]) e') (ih hs)
  | @free held next e _ _ _ i he hrest ih =>
    refine .cons (fun e' he' j hj d hd heq => ?_) (ih hs.rest)
    obtain rfl : i = j := by simpa [he] using hj
    -- what the rest touches is another handle of the party, or a new one
    rcases hrest.touched he' hd with hi | hi
    · exact (Multiset.nodup_cons.mp hs.nodup).1 (heq ▸ hi)
    · have := hs.made i (Multiset.mem_cons_self _ _)
      omega

end Lawful

end Handles
