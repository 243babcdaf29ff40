import Mathlib.Data.List.Range

namespace Circular

/-- The `i`-th position of a circular array of `size` cells counted from `first`. -/
def pos (size first i : Nat) : Nat :=
  if first + i < size then first + i else first + i - size

theorem pos_lt {size first i : Nat} (hfirst : first < size) (hi : i < size) :
    pos size first i < size := by
  unfold pos
  split <;> omega

theorem pos_inj {size first i j : Nat} (hi : i < size) (hj : j < size)
    (h : pos size first i = pos size first j) : i = j := by
  unfold pos at h
  split at h <;> split at h <;> omega

/-- Every position is counted from `first` by some number. -/
theorem exists_pos {size first p : Nat} (hfirst : first < size) (hp : p < size) :
    ∃ i < size, pos size first i = p := by
  by_cases hle : first ≤ p
  · refine ⟨p - first, by omega, ?_⟩
    unfold pos
    split <;> omega
  · refine ⟨p + (size - first), by omega, ?_⟩
    unfold pos
    split <;> omega

end Circular
