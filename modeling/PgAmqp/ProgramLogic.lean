import Mathlib.Logic.Relation

/-!
# Weakest preconditions for programs with state and exceptions

A program here is an `EStateM ε σ α`: from a state it either returns a value or
raises, and both outcomes leave a state behind. `wp` asks for one postcondition
for each outcome, so a fact about a program that unwinds half way is stated in
the same place as the fact about a normal return.
-/
namespace ProgramLogic

variable {ε σ α β : Type}

/-- Running `x` from `s` returns into `Q` or raises into `E`. -/
def wp (x : EStateM ε σ α) (Q : α → σ → Prop) (E : ε → σ → Prop) (s : σ) : Prop :=
  match x s with
  | .ok a s' => Q a s'
  | .error e s' => E e s'

variable {Q Q' : α → σ → Prop} {E E' : ε → σ → Prop} {s : σ}

@[simp] theorem wp_pure (a : α) : wp (pure a : EStateM ε σ α) Q E s = Q a s := rfl

@[simp] theorem wp_bind (x : EStateM ε σ β) (f : β → EStateM ε σ α) :
    wp (x >>= f) Q E s = wp x (fun b => wp (f b) Q E) E s := by
  simp only [wp, bind, EStateM.bind]
  cases x s <;> rfl

@[simp] theorem wp_throw (e : ε) : wp (throw e : EStateM ε σ α) Q E s = E e s := rfl

@[simp] theorem wp_ite (c : Prop) [Decidable c] (x y : EStateM ε σ α) :
    wp (if c then x else y) Q E s = if c then wp x Q E s else wp y Q E s := by
  split <;> rfl

/-- The consequence rule: a specification is used by weakening its two postconditions. -/
theorem wp_mono {x : EStateM ε σ α} (h : wp x Q E s)
    (hQ : ∀ a s', Q a s' → Q' a s') (hE : ∀ e s', E e s' → E' e s') : wp x Q' E' s := by
  unfold wp at h ⊢
  cases hx : x s with
  | ok a s' => exact hQ a s' (by simpa only [hx] using h)
  | error e s' => exact hE e s' (by simpa only [hx] using h)

/-- The sequencing rule with the intermediate assertion written out. -/
theorem wp_seq {x : EStateM ε σ β} {f : β → EStateM ε σ α} {R : β → σ → Prop}
    (hx : wp x R E s) (hf : ∀ b s', R b s' → wp (f b) Q E s') : wp (x >>= f) Q E s := by
  rw [wp_bind]
  exact wp_mono hx hf (fun _ _ h => h)

theorem wp_and {x : EStateM ε σ α} (h : wp x Q E s) (h' : wp x Q' E' s) :
    wp x (fun a s' => Q a s' ∧ Q' a s') (fun e s' => E e s' ∧ E' e s') s := by
  unfold wp at h h' ⊢
  cases hx : x s <;> simp only [hx] at h h' ⊢ <;> exact ⟨h, h'⟩

/-- Whatever `x` does, `P` holds afterwards if it held before. -/
def Preserves (P : σ → Prop) (x : EStateM ε σ α) : Prop :=
  ∀ s, P s → wp x (fun _ => P) (fun _ => P) s

theorem Preserves.pure (P : σ → Prop) (a : α) : Preserves P (pure a : EStateM ε σ α) :=
  fun _ h => h

theorem Preserves.throw (P : σ → Prop) (e : ε) : Preserves P (throw e : EStateM ε σ α) :=
  fun _ h => h

theorem Preserves.bind {P : σ → Prop} {x : EStateM ε σ β} {f : β → EStateM ε σ α}
    (hx : Preserves P x) (hf : ∀ b, Preserves P (f b)) : Preserves P (x >>= f) :=
  fun s h => wp_seq (hx s h) (fun b s' h' => hf b s' h')

theorem Preserves.ite {P : σ → Prop} {c : Prop} [Decidable c] {x y : EStateM ε σ α}
    (hx : c → Preserves P x) (hy : ¬ c → Preserves P y) : Preserves P (if c then x else y) := by
  by_cases hc : c
  · rw [if_pos hc]; exact hx hc
  · rw [if_neg hc]; exact hy hc

/-- As `Preserves`, for a program that raises errors of one kind only. -/
def Keeps (R : ε → Prop) (P : σ → Prop) (x : EStateM ε σ α) : Prop :=
  ∀ s, P s → wp x (fun _ => P) (fun e s' => R e ∧ P s') s

section Keeps

variable {R : ε → Prop} {P : σ → Prop}

theorem Keeps.pure (a : α) : Keeps R P (pure a : EStateM ε σ α) := fun _ h => h

theorem Keeps.bind {x : EStateM ε σ β} {f : β → EStateM ε σ α} (hx : Keeps R P x)
    (hf : ∀ b, Keeps R P (f b)) : Keeps R P (x >>= f) :=
  fun s h => wp_seq (hx s h) fun b s' h' => hf b s' h'

theorem Keeps.ite {c : Prop} [Decidable c] {x y : EStateM ε σ α} (hx : Keeps R P x)
    (hy : Keeps R P y) : Keeps R P (if c then x else y) := by
  split
  · exact hx
  · exact hy

end Keeps

/-- The state a program leaves behind, whether it returned or raised. -/
def final (x : EStateM ε σ α) (s : σ) : σ :=
  match x s with
  | .ok _ s' => s'
  | .error _ s' => s'

/-- From every state the program returns; it raises from none. -/
def Returns (x : EStateM ε σ α) : Prop := ∀ s, ∃ a s', x s = .ok a s'

theorem Returns.pure (a : α) : Returns (pure a : EStateM ε σ α) := fun s => ⟨a, s, rfl⟩

theorem Returns.bind {x : EStateM ε σ β} {f : β → EStateM ε σ α} (hx : Returns x)
    (hf : ∀ b, Returns (f b)) : Returns (x >>= f) := by
  intro s
  obtain ⟨b, s', hb⟩ := hx s
  obtain ⟨a, s'', ha⟩ := hf b s'
  exact ⟨a, s'', by simp only [Bind.bind, EStateM.bind, hb, ha]⟩

theorem Returns.ite {c : Prop} [Decidable c] {x y : EStateM ε σ α} (hx : Returns x) (hy : Returns y) :
    Returns (if c then x else y) := by
  split
  · exact hx
  · exact hy

/-- Of a program that returns, the exit by an error can be left out. -/
theorem Returns.wp {x : EStateM ε σ α} (hx : Returns x) (h : wp x Q E s) :
    ∃ a s', x s = .ok a s' ∧ Q a s' := by
  obtain ⟨a, s', hs⟩ := hx s
  unfold ProgramLogic.wp at h
  rw [hs] at h
  exact ⟨a, s', hs, h⟩

/-- What a run that returned was specified to do. -/
theorem wp_returned {x : EStateM ε σ α} {a : α} {s' : σ} (h : wp x Q E s) (hx : x s = .ok a s') : Q a s' := by
  unfold wp at h
  rwa [hx] at h

/-- A program without an exit by an error returns. -/
theorem wp_ok {x : EStateM ε σ α} (h : wp x Q (fun _ _ => False) s) :
    ∃ a s', x s = .ok a s' ∧ Q a s' := by
  unfold wp at h
  cases hx : x s with
  | ok a s' =>
    rw [hx] at h
    exact ⟨a, s', rfl, h⟩
  | error e s' =>
    rw [hx] at h
    exact h.elim

theorem Returns.done {x : EStateM ε σ α} (hx : Returns x) :
    ProgramLogic.wp x (fun _ _ => True) E s := by
  obtain ⟨a, s', hs⟩ := hx s
  unfold ProgramLogic.wp
  rw [hs]
  trivial

/-- In a program `p` with a label that it may jump back to, `p k` is the one whose jump goes on
with `k`. From every state it either jumps, from a state that does not depend on `k`, or ends
without a jump. -/
def Jumps (p : EStateM ε σ α → EStateM ε σ α) : Prop :=
  ∀ s, (∃ s', ∀ k, p k s = k s') ∨ ∃ r, ∀ k, p k s = r

theorem Jumps.const (x : EStateM ε σ α) : Jumps fun _ => x := fun s => .inr ⟨x s, fun _ => rfl⟩

theorem Jumps.jump : Jumps fun k : EStateM ε σ α => k := fun s => .inl ⟨s, fun _ => rfl⟩

theorem Jumps.bind (x : EStateM ε σ β) {f : β → EStateM ε σ α → EStateM ε σ α}
    (hf : ∀ b, Jumps (f b)) : Jumps fun k => x >>= fun b => f b k := by
  intro s
  simp only [Bind.bind, EStateM.bind]
  cases x s with
  | ok b s' => exact hf b s'
  | error e s' => exact .inr ⟨.error e s', fun _ => rfl⟩

theorem Jumps.ite {c : Prop} [Decidable c] {p q : EStateM ε σ α → EStateM ε σ α} (hp : Jumps p)
    (hq : Jumps q) : Jumps fun k => if c then p k else q k := by
  by_cases hc : c
  · simpa only [if_pos hc] using hp
  · simpa only [if_neg hc] using hq

/-- The state from which the program jumps, found by two jumps that lead to different errors. -/
def jumpState [DecidableEq ε] (e e' : ε) (p : EStateM ε σ α → EStateM ε σ α) (s : σ) : Option σ :=
  match p (throw e) s, p (throw e') s with
  | .error x s', .error y _ => if x = e ∧ y = e' then some s' else none
  | _, _ => none

theorem Jumps.cases [DecidableEq ε] {p : EStateM ε σ α → EStateM ε σ α} (hp : Jumps p) {e e' : ε}
    (he : e ≠ e') (s : σ) :
    (∃ s', jumpState e e' p s = some s' ∧ ∀ k, p k s = k s') ∨
      jumpState e e' p s = none ∧ ∃ r, ∀ k, p k s = r := by
  rcases hp s with ⟨s', h⟩ | ⟨r, h⟩
  · refine .inl ⟨s', ?_, h⟩
    unfold jumpState
    rw [h, h]
    exact if_pos ⟨rfl, rfl⟩
  · refine .inr ⟨?_, r, h⟩
    unfold jumpState
    rw [h, h]
    cases r with
    | ok => rfl
    | error x s' =>
      dsimp only
      rw [if_neg]
      rintro ⟨rfl, h'⟩
      exact he h'

theorem wp_final {x : EStateM ε σ α} {P : σ → Prop}
    (h : wp x (fun _ => P) (fun _ => P) s) : P (final x s) := by
  unfold wp at h
  unfold final
  cases hx : x s <;> simp_all only

end ProgramLogic
