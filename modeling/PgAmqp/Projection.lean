import PgAmqp.Outputs

/-!
# Projecting runs

A part of a system is seen through a `view` of its states, and each step of the system is
for this part a run of its own, which may be empty. Then each run of the system is for this
part the runs of its steps, one after the other, and the part gives out the same.
-/
namespace Transition

variable {σ τ ι κ α : Type}

theorem run_append (next : ι → σ → σ) (inputs inputs' : List ι) (s : σ) :
    run next (inputs ++ inputs') s = run next inputs' (run next inputs s) := List.foldl_append

theorem gathered_append (next : ι → σ → σ) (f : ι → σ → List α) (inputs inputs' : List ι) (s : σ) :
    gathered next f (inputs ++ inputs') s =
      gathered next f inputs s ++ gathered next f inputs' (run next inputs s) := by
  induction inputs generalizing s with
  | nil => rfl
  | cons i rest ih => rw [List.cons_append, gathered, gathered, ih, List.append_assoc]; rfl

/-- `part` is what a step is for the part of the system that `view` sees. -/
structure Projects (next : ι → σ → σ) (next' : κ → τ → τ) (I : σ → Prop) (view : σ → τ) (part : ι → σ → List κ)
    (out : ι → σ → List α) (out' : κ → τ → List α) : Prop where
  inv : ∀ s i, I s → I (next i s)
  state : ∀ s i, I s → run next' (part i s) (view s) = view (next i s)
  given : ∀ s i, I s → gathered next' out' (part i s) (view s) = out i s

theorem Projects.run {next : ι → σ → σ} {next' : κ → τ → τ} {I : σ → Prop} {view : σ → τ} {part : ι → σ → List κ}
    {out : ι → σ → List α} {out' : κ → τ → List α} (h : Projects next next' I view part out out')
    (inputs : List ι) {s : σ} (hs : I s) :
    Transition.run next' (gathered next part inputs s) (view s) = view (Transition.run next inputs s) ∧
      gathered next' out' (gathered next part inputs s) (view s) = gathered next out inputs s := by
  induction inputs generalizing s with
  | nil => exact ⟨rfl, rfl⟩
  | cons i rest ih =>
    obtain ⟨hstate, hgiven⟩ := ih (h.inv s i hs)
    constructor
    · rw [gathered, run_append, h.state s i hs]
      exact hstate
    · rw [gathered, gathered, gathered_append, h.state s i hs, h.given s i hs, hgiven]

end Transition
