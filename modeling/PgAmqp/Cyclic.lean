import Mathlib.Data.List.Nodup
import Mathlib.Data.Nat.ModEq

/-!
# Positions in a cyclic order

`positions n i m` are the `m` positions from `i` on in a cycle of `n`. Two stretches that
meet are one stretch, a stretch of at most `n` visits no position twice, and a stretch of
`n` visits them all.
-/
namespace Cyclic

/-- The next `m` positions from `i` on, in a cycle of length `n`. -/
def positions (n i m : Nat) : List Nat := (List.range m).map fun j => (i + j) % n

variable {n i m m' : Nat}

@[simp] theorem positions_length : (positions n i m).length = m := by simp [positions]

@[simp] theorem positions_zero : positions n i 0 = [] := rfl

/-- Only the position counts from which the stretch starts. -/
theorem positions_mod : positions n (i % n) m = positions n i m := by
  simp only [positions, Nat.mod_add_mod]

theorem positions_mod_add {j : Nat} : positions n (i % n + j) m = positions n (i + j) m := by
  rw [← positions_mod, Nat.mod_add_mod, positions_mod]

theorem positions_append : positions n i m ++ positions n (i + m) m' = positions n i (m + m') := by
  simp only [positions, List.range_add, List.map_append, List.map_map]
  congr 1
  refine List.map_congr_left fun j _ => ?_
  rw [Function.comp_apply, Nat.add_assoc]

theorem positions_succ : positions n i (m + 1) = i % n :: positions n (i + 1) m := by
  rw [Nat.add_comm m 1, ← positions_append]
  simp [positions]

/-- A window of a stretch is a stretch. -/
theorem positions_window {j w : Nat} (h : j + w ≤ m) :
    ((positions n i m).drop j).take w = positions n (i + j) w := by
  obtain ⟨r, rfl⟩ := Nat.exists_eq_add_of_le h
  have hsplit : positions n i (j + w + r) =
      positions n i j ++ (positions n (i + j) w ++ positions n (i + j + w) r) := by
    rw [positions_append, positions_append, Nat.add_assoc]
  rw [hsplit, List.drop_left' positions_length, List.take_left' positions_length]

theorem positions_lt (hn : 0 < n) {p : Nat} (hp : p ∈ positions n i m) : p < n := by
  obtain ⟨j, -, rfl⟩ := List.mem_map.mp hp
  exact Nat.mod_lt _ hn

theorem positions_nodup (h : m ≤ n) : (positions n i m).Nodup := by
  refine List.Nodup.map_on (fun a ha b hb hab => ?_) List.nodup_range
  rw [List.mem_range] at ha hb
  have hmod : a % n = b % n := Nat.ModEq.add_left_cancel' i hab
  rwa [Nat.mod_eq_of_lt (Nat.lt_of_lt_of_le ha h), Nat.mod_eq_of_lt (Nat.lt_of_lt_of_le hb h)] at hmod

/-- A whole turn of the cycle visits every position. -/
theorem positions_cover {p : Nat} (hp : p < n) : p ∈ positions n i n := by
  refine List.mem_map.mpr ⟨(p + (n - i % n)) % n, List.mem_range.mpr (Nat.mod_lt _ (by omega)), ?_⟩
  have hi : i % n < n := Nat.mod_lt _ (by omega)
  rw [Nat.add_mod_mod, ← Nat.mod_add_mod]
  have hsum : i % n + (p + (n - i % n)) = p + n := by omega
  rw [hsum, Nat.add_mod_right, Nat.mod_eq_of_lt hp]

/-- Whole turns of the cycle visit every position equally often. -/
theorem positions_count {p : Nat} (hp : p < n) (m : Nat) : (positions n i (n * m)).count p = m := by
  induction m with
  | zero => simp
  | succ m ih =>
    have hturn : (positions n (i + n * m) n).count p = 1 :=
      List.count_eq_one_of_mem (positions_nodup (Nat.le_refl n)) (positions_cover hp)
    rw [Nat.mul_succ, ← positions_append, List.count_append, ih, hturn]

theorem positions_getElem? {j p : Nat} (h : (positions n i m)[j]? = some p) : j < m ∧ p = (i + j) % n := by
  simp only [positions, List.getElem?_map, Option.map_eq_some_iff] at h
  obtain ⟨k, hk, rfl⟩ := h
  obtain ⟨hj, rfl⟩ := List.getElem?_eq_some_iff.mp hk
  rw [List.length_range] at hj
  exact ⟨hj, by simp⟩

end Cyclic
