import Mathlib.Logic.Relation

/-!
# Guarded transition systems

A system is a set of initial states, a total `next` function on inputs, and a
guard that tells which inputs are taken in which states. `Reach` is the set of
states that runs from an initial state lead to. Narrowing the guard narrows the
runs, which is how a property of all runs of one kind is stated.
-/
namespace Transition

variable {σ ι : Type}

inductive Reach (init : σ → Prop) (next : ι → σ → σ) (ok : σ → ι → Prop) : σ → Prop where
  | init {s : σ} : init s → Reach init next ok s
  | step {s : σ} (i : ι) : Reach init next ok s → ok s i → Reach init next ok (next i s)

variable {init : σ → Prop} {next : ι → σ → σ} {ok ok' : σ → ι → Prop}

/-- The invariant rule: what holds at the start and is kept by every taken step
holds in every reached state. -/
theorem Reach.invariant {I : σ → Prop} (h₀ : ∀ s, init s → I s)
    (h₁ : ∀ s i, Reach init next ok s → I s → ok s i → I (next i s)) {s : σ}
    (h : Reach init next ok s) : I s := by
  induction h with
  | init hs => exact h₀ _ hs
  | step i hr ho ih => exact h₁ _ i hr ih ho

/-- A run under a guard is a run under any weaker guard. -/
theorem Reach.mono (h : ∀ s i, ok s i → ok' s i) {s : σ} (hs : Reach init next ok s) :
    Reach init next ok' s := by
  induction hs with
  | init hs => exact .init hs
  | step i _ ho ih => exact .step i ih (h _ i ho)

/-- A run goes on from any state that a run has reached. -/
theorem Reach.trans {s s' : σ} (h : Reach init next ok s) (h' : Reach (· = s) next ok s') :
    Reach init next ok s' := by
  induction h' with
  | init hs => exact hs ▸ h
  | step i _ ho ih => exact .step i ih ho

/-- The state after a list of inputs, first input first. -/
def run (next : ι → σ → σ) (inputs : List ι) (s : σ) : σ := inputs.foldl (fun s i => next i s) s

/-- The guard holds of every input of the list in the state it is taken in. -/
def Admits (next : ι → σ → σ) (ok : σ → ι → Prop) : List ι → σ → Prop
  | [], _ => True
  | i :: rest, s => ok s i ∧ Admits next ok rest (next i s)

instance Admits.decidable [∀ s i, Decidable (ok s i)] :
    (inputs : List ι) → (s : σ) → Decidable (Admits next ok inputs s)
  | [], _ => isTrue trivial
  | i :: rest, s =>
    have := Admits.decidable rest (next i s)
    inferInstanceAs (Decidable (ok s i ∧ Admits next ok rest (next i s)))

theorem Admits.always (inputs : List ι) (s : σ) : Admits next (fun _ _ => True) inputs s := by
  induction inputs generalizing s with
  | nil => trivial
  | cons i rest ih => exact ⟨trivial, ih (next i s)⟩

theorem Admits.mono {ok' : σ → ι → Prop} {inputs : List ι} {s : σ} (h : Admits next ok inputs s)
    (hok : ∀ s i, ok s i → ok' s i) : Admits next ok' inputs s := by
  induction inputs generalizing s with
  | nil => trivial
  | cons i rest ih => exact ⟨hok s i h.1, ih h.2⟩

/-- A listed run is a run. -/
theorem Reach.run {s : σ} (h : Reach init next ok s) (inputs : List ι)
    (ha : Admits next ok inputs s) : Reach init next ok (run next inputs s) := by
  induction inputs generalizing s with
  | nil => exact h
  | cons i rest ih => exact ih (.step i h ha.1) ha.2

end Transition
