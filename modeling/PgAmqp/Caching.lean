import PgAmqp.Outputs

/-!
# What is cached in a run

A step either keeps what is cached, drops it, or loads it where nothing is cached. So what is
cached at the end of a run was loaded by one of its steps and kept by all that followed, and
whatever these steps gave out was made from it.
-/
namespace Transition

variable {σ ι α β : Type}

/-- What the steps do to the cache that `view` shows. `loads` is what a load finds, and `made`
what a step gives out while this is cached. -/
structure Caches (next : ι → σ → σ) (I : σ → Prop) (ok : σ → ι → Prop) (view : σ → Option α) (drops : ι → Prop)
    (loads : ι → σ → α → Prop) (out : ι → σ → List β) (made : α → β → Prop) : Prop where
  inv : ∀ {s i}, I s → ok s i → I (next i s)
  kept : ∀ {s i a}, I s → ok s i → view s = some a → ¬ drops i →
    view (next i s) = some a ∧ ∀ x ∈ out i s, made a x
  dropped : ∀ {s i}, I s → ok s i → drops i → view (next i s) = none
  loaded : ∀ {s i a}, I s → ok s i → view s = none → view (next i s) = some a →
    loads i s a ∧ ∀ x ∈ out i s, made a x

/-- One step of the run loads what is cached at its end, and no later step drops it. -/
def Origin (next : ι → σ → σ) (view : σ → Option α) (drops : ι → Prop) (loads : ι → σ → α → Prop)
    (out : ι → σ → List β) (made : α → β → Prop) (inputs : List ι) (s : σ) (a : α) : Prop :=
  ∃ before i after, inputs = before ++ i :: after ∧ view (run next before s) = none ∧
    view (next i (run next before s)) = some a ∧ loads i (run next before s) a ∧ (∀ j ∈ after, ¬ drops j) ∧
    ∀ x ∈ gathered next out (i :: after) (run next before s), made a x

section Caches

variable {next : ι → σ → σ} {I : σ → Prop} {ok : σ → ι → Prop} {view : σ → Option α} {drops : ι → Prop}
  {loads : ι → σ → α → Prop} {out : ι → σ → List β} {made : α → β → Prop}

/-- It was cached from the start on, or it was loaded on the way. -/
theorem Caches.run (h : Caches next I ok view drops loads out made) {inputs : List ι} {s : σ} {a : α} (hI : I s)
    (ha : Admits next ok inputs s) (hv : view (run next inputs s) = some a) :
    (view s = some a ∧ (∀ j ∈ inputs, ¬ drops j) ∧ ∀ x ∈ gathered next out inputs s, made a x) ∨
      Origin next view drops loads out made inputs s a := by
  induction inputs generalizing s with
  | nil => exact .inl ⟨hv, by simp, by simp [gathered]⟩
  | cons i rest ih =>
    rcases ih (h.inv hI ha.1) ha.2 hv with ⟨hnext, hrest, hmade⟩ | ⟨before, j, after, hsplit, horigin⟩
    · have hall : ∀ hi : ∀ x ∈ out i s, made a x, ∀ x ∈ gathered next out (i :: rest) s, made a x := by
        intro hi x hx
        rw [gathered] at hx
        rcases List.mem_append.mp hx with hx | hx
        · exact hi x hx
        · exact hmade x hx
      cases hview : view s with
      | none =>
        obtain ⟨hload, hi⟩ := h.loaded hI ha.1 hview hnext
        exact .inr ⟨[], i, rest, rfl, hview, hnext, hload, hrest, hall hi⟩
      | some a' =>
        have hi : ¬ drops i := by
          intro hd
          rw [h.dropped hI ha.1 hd] at hnext
          cases hnext
        obtain ⟨hsame, hout⟩ := h.kept hI ha.1 hview hi
        obtain rfl : a' = a := Option.some.inj (hsame.symm.trans hnext)
        exact .inl ⟨rfl, List.forall_mem_cons.mpr ⟨hi, hrest⟩, hall hout⟩
    · exact .inr ⟨i :: before, j, after, by rw [hsplit, List.cons_append], horigin⟩

/-- Where nothing is cached at the start, all that is cached was loaded. -/
theorem Caches.origin (h : Caches next I ok view drops loads out made) {inputs : List ι} {s : σ} {a : α} (hI : I s)
    (hs : view s = none) (ha : Admits next ok inputs s) (hv : view (Transition.run next inputs s) = some a) :
    Origin next view drops loads out made inputs s a := by
  refine (h.run hI ha hv).resolve_left fun hcached => ?_
  rw [hs] at hcached
  cases hcached.1

end Caches

end Transition
