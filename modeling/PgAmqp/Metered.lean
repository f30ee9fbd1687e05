import PgAmqp.ProgramLogic
import Mathlib.Algebra.Order.Monoid.Canonical.Defs

/-!
# Programs with a meter

A meter reads a quantity off the state that a program only adds to. `Spends` is a triple
with a bound on what the program adds: the bounds of two programs in a row are added, and
a bound may be widened. A program that raises has spent no more than its bound either.
-/
namespace Metered

open ProgramLogic

variable {ε σ α β κ : Type} [AddCommMonoid κ] [PartialOrder κ]

/-- From `P` the program returns into `Q` or raises into `E`, and adds at most `n`. -/
def Spends (meter : σ → κ) (P : σ → Prop) (x : EStateM ε σ α) (n : κ) (Q : α → σ → Prop) (E : σ → Prop) : Prop :=
  ∀ s, P s → wp x (fun a s' => Q a s' ∧ meter s' ≤ meter s + n) (fun _ s' => E s' ∧ meter s' ≤ meter s + n) s

variable {meter : σ → κ} {P P' : σ → Prop} {Q Q' : α → σ → Prop} {E E' : σ → Prop} {x : EStateM ε σ α} {m n : κ}

theorem Spends.pure {a : α} (h : ∀ s, P s → Q a s) : Spends meter P (pure a : EStateM ε σ α) 0 Q E :=
  fun s hs => ⟨h s hs, (add_zero _).ge⟩

/-- The bound and the postconditions are used by weakening them. -/
theorem Spends.mono [IsOrderedAddMonoid κ] (h : Spends meter P x m Q E) (hmn : m ≤ n)
    (hP : ∀ s, P' s → P s) (hQ : ∀ a s, Q a s → Q' a s) (hE : ∀ s, E s → E' s) : Spends meter P' x n Q' E' := by
  intro s hs
  have hle : meter s + m ≤ meter s + n := by gcongr
  exact wp_mono (h s (hP s hs)) (fun a s' h' => ⟨hQ a s' h'.1, h'.2.trans hle⟩)
    fun _ s' h' => ⟨hE s' h'.1, h'.2.trans hle⟩

theorem Spends.within [IsOrderedAddMonoid κ] (h : Spends meter P x m Q E) (hmn : m ≤ n) : Spends meter P x n Q E :=
  h.mono hmn (fun _ h => h) (fun _ _ h => h) fun _ h => h

/-- A program that leaves the meter alone. -/
theorem Spends.free (h : ∀ s, P s → wp x (fun a s' => Q a s' ∧ meter s' = meter s)
    (fun _ s' => E s' ∧ meter s' = meter s) s) : Spends meter P x 0 Q E := by
  intro s hs
  exact wp_mono (h s hs) (fun a s' h' => ⟨h'.1, by rw [h'.2, add_zero]⟩)
    fun _ s' h' => ⟨h'.1, by rw [h'.2, add_zero]⟩

section Sequence

variable [IsOrderedAddMonoid κ] [CanonicallyOrderedAdd κ] {R : β → σ → Prop} {y : EStateM ε σ β} {f : β → EStateM ε σ α}

/-- The sequencing rule: what the second program spends comes on top. -/
theorem Spends.bind (hy : Spends meter P y m R E) (hf : ∀ b, Spends meter (R b) (f b) n Q E) :
    Spends meter P (y >>= f) (m + n) Q E := by
  intro s hs
  rw [wp_bind]
  refine wp_mono (hy s hs) (fun b s' hb => ?_) fun _ s' h' => ⟨h'.1, ?_⟩
  · have hle : meter s' + n ≤ meter s + (m + n) := by
      rw [← add_assoc]
      gcongr
      exact hb.2
    exact wp_mono (hf b s' hb.1) (fun a s'' ha => ⟨ha.1, ha.2.trans hle⟩) fun _ s'' ha => ⟨ha.1, ha.2.trans hle⟩
  · calc meter s' ≤ meter s + m := h'.2
      _ ≤ meter s + (m + n) := by gcongr; exact le_self_add

/-- A first program that leaves the meter alone. -/
theorem Spends.after (hy : Spends meter P y 0 R E) (hf : ∀ b, Spends meter (R b) (f b) n Q E) :
    Spends meter P (y >>= f) n Q E := by
  simpa using hy.bind hf

end Sequence

theorem Spends.ite {c : Prop} [Decidable c] {y : EStateM ε σ α} (hx : c → Spends meter P x n Q E)
    (hy : ¬ c → Spends meter P y n Q E) : Spends meter P (if c then x else y) n Q E := by
  by_cases hc : c
  · rw [if_pos hc]; exact hx hc
  · rw [if_neg hc]; exact hy hc

end Metered
