import PgAmqp.Transition
import Mathlib.Data.List.Infix

/-!
# What the steps of a run give out

Each step of a run may send something and may report something. A run settles when at each
of its checkpoints, and at its end, all that was sent so far has been reported. Where a
report is only made of what an earlier step has left to be reported, a run that sends at
its checkpoints settles only by sending nothing.
-/
namespace Transition

variable {σ ι α κ : Type} {next : ι → σ → σ}

/-- What the steps give out, one after the other. -/
def gathered (next : ι → σ → σ) (f : ι → σ → List α) : List ι → σ → List α
  | [], _ => []
  | i :: rest, s => f i s ++ gathered next f rest (next i s)

/-- At each checkpoint and at the end the reports are what was sent, for every receiver. -/
def Settles (next : ι → σ → σ) (sent reported : κ → ι → σ → List α) (checkpoint : ι → Prop)
    (inputs : List ι) (s : σ) : Prop :=
  (∀ before i, before ++ [i] <+: inputs → checkpoint i →
    ∀ k, gathered next (reported k) (before ++ [i]) s = gathered next (sent k) (before ++ [i]) s) ∧
  ∀ k, gathered next (reported k) inputs s = gathered next (sent k) inputs s

variable {sent reported : κ → ι → σ → List α} {checkpoint : ι → Prop}

theorem gathered_skip {f : ι → σ → List α} {i : ι} {s : σ} (h : f i s = []) (rest : List ι) :
    gathered next f (i :: rest) s = gathered next f rest (next i s) := by
  rw [gathered, h, List.nil_append]

/-- A first step that gives out nothing does not matter. -/
theorem Settles.skip {i : ι} {s : σ} (hr : ∀ k, reported k i s = []) (hs : ∀ k, sent k i s = []) (rest : List ι) :
    Settles next sent reported checkpoint (i :: rest) s ↔
      Settles next sent reported checkpoint rest (next i s) := by
  constructor
  · rintro ⟨hbefore, hend⟩
    refine ⟨fun before j hj hc k => ?_, fun k => ?_⟩
    · have h := hbefore (i :: before) j (List.cons_prefix_cons.mpr ⟨rfl, hj⟩) hc k
      rwa [List.cons_append, gathered_skip (hr k), gathered_skip (hs k)] at h
    · have h := hend k
      rwa [gathered_skip (hr k), gathered_skip (hs k)] at h
  · rintro ⟨hbefore, hend⟩
    refine ⟨fun before j hj hc k => ?_, fun k => ?_⟩
    · cases before with
      | nil =>
        obtain ⟨rfl, -⟩ := List.cons_prefix_cons.mp hj
        rw [List.nil_append, gathered_skip (hr k), gathered_skip (hs k)]
        rfl
      | cons i' before =>
        obtain ⟨rfl, hrest⟩ := List.cons_prefix_cons.mp hj
        rw [List.cons_append, gathered_skip (hr k), gathered_skip (hs k)]
        exact hbefore before j hrest hc k
    · rw [gathered_skip (hr k), gathered_skip (hs k)]
      exact hend k

/-- From a state where nothing is left to be reported no step reports anything, and only a
checkpoint that sends something leaves such a state: the run settles just when it sends nothing. -/
theorem settles_iff {I : σ → Prop} {ok : ι → Prop} (hreported : ∀ s i, ok i → I s → ∀ k, reported k i s = [])
    (hkeep : ∀ s i, ok i → I s → (∀ k, sent k i s = []) → I (next i s))
    (hsent : ∀ s i k, sent k i s ≠ [] → checkpoint i) {inputs : List ι} (hok : ∀ i ∈ inputs, ok i) {s : σ}
    (hs : I s) :
    Settles next sent reported checkpoint inputs s ↔ ∀ k, gathered next (sent k) inputs s = [] := by
  induction inputs generalizing s with
  | nil =>
    refine ⟨fun _ _ => rfl, fun _ => ⟨fun before i hi => ?_, fun _ => rfl⟩⟩
    simp at hi
  | cons i rest ih =>
    obtain ⟨hi, hrest⟩ := List.forall_mem_cons.mp hok
    have hr := hreported s i hi hs
    by_cases h : ∀ k, sent k i s = []
    · rw [Settles.skip hr h, ih hrest (hkeep s i hi hs h)]
      exact forall_congr' fun k => by rw [gathered_skip (h k)]
    -- what this checkpoint sends is not reported by the end of it
    obtain ⟨k, hk⟩ := not_forall.mp h
    refine ⟨fun hset => absurd ?_ hk, fun hnone => absurd ?_ hk⟩
    · have hend := hset.1 [] i (List.cons_prefix_cons.mpr ⟨rfl, List.nil_prefix⟩) (hsent s i k hk) k
      rw [List.nil_append, gathered_skip (hr k)] at hend
      simpa [gathered] using hend.symm
    · exact (List.append_eq_nil_iff.mp (hnone k)).1

end Transition
