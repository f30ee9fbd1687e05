import Mathlib.Data.List.Basic

/-!
# A queue that is served from its front

In each round the first `n` elements of a queue are served. Those that are served well
leave it, and the others keep their places. An element is served unless the failing
elements in front of it fill the rounds: each round takes away at least as many of those
in front as it serves beyond the number of failures.
-/
namespace FrontService

variable {α : Type}

/-- One round: of the first `n` elements those stay that fail. -/
def serveRound (n : Nat) (ok : α → Bool) (q : List α) : List α :=
  (q.take n).filter (fun x => !ok x) ++ q.drop n

/-- The elements that are served, round by round. -/
def served (n : Nat) : List (α → Bool) → List α → List α
  | [], _ => []
  | ok :: rest, q => q.take n ++ served n rest (serveRound n ok q)

/-- The elements that fail, round by round. -/
def failed (n : Nat) : List (α → Bool) → List α → List α
  | [], _ => []
  | ok :: rest, q => (q.take n).filter (fun x => !ok x) ++ failed n rest (serveRound n ok q)

variable {n f : Nat} {ok : α → Bool} {oks : List (α → Bool)} {front back : List α} {r : α}

/-- A round in which only elements in front of `r` are served. -/
theorem serveRound_behind (h : n ≤ front.length) :
    serveRound n ok (front ++ r :: back) = serveRound n ok front ++ r :: back := by
  unfold serveRound
  rw [List.take_append_of_le_length h, List.drop_append_of_le_length h, List.append_assoc]

theorem serveRound_sublist (q : List α) : (serveRound n ok q).Sublist q := by
  have h : ((q.take n).filter (fun x => !ok x) ++ q.drop n).Sublist (q.take n ++ q.drop n) :=
    List.filter_sublist.append (.refl _)
  rwa [List.take_append_drop] at h

/-- With at most `f` failures a full round takes away `n - f` elements. -/
theorem serveRound_length (h : n ≤ front.length)
    (hf : ((front.take n).filter (fun x => !ok x)).length ≤ f) :
    (serveRound n ok front).length ≤ front.length - (n - f) := by
  have hn : ((front.take n).filter (fun x => !ok x)).length ≤ n :=
    Nat.le_trans (List.length_filter_le _ _) (List.length_take_le _ _)
  unfold serveRound
  rw [List.length_append, List.length_drop]
  omega

/-- An element is served when the rounds are enough for those in front of it, of which at
most `f` ever fail. -/
theorem mem_served (bad : α → Bool) (hne : oks ≠ []) (hf : (front.filter bad).length ≤ f)
    (hbad : ∀ x ∈ failed n oks (front ++ r :: back), bad x = true)
    (hlen : front.length < (oks.length - 1) * (n - f) + n) : r ∈ served n oks (front ++ r :: back) := by
  induction oks generalizing front with
  | nil => exact absurd rfl hne
  | cons ok rest ih =>
    unfold served
    by_cases hshort : front.length < n
    · refine List.mem_append_left _ ?_
      rw [List.take_append]
      obtain ⟨k, hk⟩ := Nat.exists_eq_add_of_lt hshort
      rw [show n - front.length = k + 1 by omega]
      simp
    have hlong : n ≤ front.length := Nat.not_lt.mp hshort
    have hrest : rest ≠ [] := by
      rintro rfl
      simp at hlen
      omega
    -- what fails in this round is among the failing elements in front
    have hround : ((front.take n).filter (fun x => !ok x)).length ≤ f := by
      refine Nat.le_trans (List.Sublist.length_le ?_) hf
      have hsub : ((front.take n).filter (fun x => !ok x)).Sublist ((front.take n).filter bad) := by
        have himp : ∀ x ∈ (front.take n).filter (fun x => !ok x), bad x = true := by
          intro x hx
          refine hbad x (List.mem_append_left _ ?_)
          rwa [List.take_append_of_le_length hlong]
        rw [← List.filter_eq_self.mpr himp]
        exact List.filter_sublist.filter bad
      exact hsub.trans ((List.take_sublist n front).filter bad)
    refine List.mem_append_right _ ?_
    rw [serveRound_behind hlong]
    refine ih hrest (Nat.le_trans (List.Sublist.length_le ((serveRound_sublist front).filter bad)) hf) ?_ ?_
    · intro x hx
      refine hbad x (List.mem_append_right _ ?_)
      rwa [serveRound_behind hlong]
    · have hgone := serveRound_length hlong hround
      obtain ⟨k, hk⟩ := Nat.exists_eq_succ_of_ne_zero (mt List.length_eq_zero_iff.mp hrest)
      rw [List.length_cons, hk, Nat.succ_sub_one, Nat.succ_mul] at hlen
      rw [hk, Nat.succ_sub_one]
      omega

end FrontService
