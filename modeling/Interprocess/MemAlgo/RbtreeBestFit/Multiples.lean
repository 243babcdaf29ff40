import Interprocess.MemAlgo.RbtreeBestFit.Expand
import Mathlib.Data.Nat.Bitwise
import Mathlib.Tactic.Ring

namespace interprocess.rbtree_best_fit

open ipcdetail

variable {m : Nat}

theorem and_pred_eq_zero_iff {k : Nat} : m &&& (2 ^ k - 1) = 0 ↔ 2 ^ k ∣ m := by
  rw [Nat.and_two_pow_sub_one_eq_mod]
  exact (Nat.dvd_iff_mod_eq_zero).symm

theorem two_pow_div_two {j : Nat} (hj : 1 ≤ j) : 2 ^ j / 2 = 2 ^ (j - 1) := by
  rw [Nat.pow_div hj Nat.two_pos]

/-- Half of the alignment divides the objects: one more of them is enough. -/
theorem half_dvd {j n : Nat} (hj : 1 ≤ j) (hm : 2 ^ (j - 1) ∣ m) (hodd : ¬ 2 ^ j ∣ m) (hn : m ∣ n)
    (hrest : ¬ 2 ^ j ∣ n) : 2 ^ j ∣ n + m := by
  obtain ⟨a, rfl⟩ := hm
  obtain ⟨b, rfl⟩ := hn
  have hpow : 2 ^ j = 2 ^ (j - 1) * 2 := by
    rw [← Nat.pow_succ, Nat.succ_eq_add_one, Nat.sub_add_cancel hj]
  rw [hpow] at hodd hrest ⊢
  have hpos := Nat.two_pow_pos (j - 1)
  have ha : ¬ 2 ∣ a := fun h => hodd (Nat.mul_dvd_mul_left _ h)
  have hb : ¬ 2 ∣ a * b := by
    intro h
    refine hrest ?_
    rw [Nat.mul_assoc]
    exact Nat.mul_dvd_mul_left _ h
  have hsum : 2 ∣ a * b + a := by omega
  rw [Nat.mul_assoc, ← Nat.mul_add]
  exact Nat.mul_dvd_mul_left _ hsum

/-- A quarter of the alignment divides the objects: the remainder says how many more of
    them are needed. -/
theorem quarter_dvd {k n : Nat} (hm : 2 ^ k ∣ m) (hodd : ¬ 2 ^ (k + 1) ∣ m) (hn : m ∣ n) :
    (m / 2 ^ (k + 1) % 2 = 1 → 2 ^ (k + 2) ∣ n + n / 2 ^ k % 4 * m) ∧
      (m / 2 ^ (k + 1) % 2 = 0 → 2 ^ (k + 2) ∣ n + (4 - n / 2 ^ k % 4) * m) := by
  obtain ⟨a, rfl⟩ := hm
  obtain ⟨b, rfl⟩ := hn
  have hpos := Nat.two_pow_pos k
  rw [Nat.pow_succ] at hodd
  have ha : ¬ 2 ∣ a := fun h => hodd (Nat.mul_dvd_mul_left _ h)
  have hhalf : 2 ^ k * a / 2 ^ (k + 1) = a / 2 := by
    rw [Nat.pow_succ, Nat.mul_div_mul_left _ _ hpos]
  have hquarter : 2 ^ k * a * b / 2 ^ k = a * b := by
    rw [Nat.mul_assoc, Nat.mul_div_cancel_left _ hpos]
  have hfactor : ∀ c, 2 ^ k * a * b + c * (2 ^ k * a) = 2 ^ k * (a * b + c * a) := by
    intro c
    ring
  rw [hhalf, hquarter, Nat.pow_add, hfactor, hfactor]
  have hr := Nat.mod_lt (a * b) (show 0 < 4 by decide)
  generalize hc : a * b = c at *
  constructor
  · intro hbit
    refine Nat.mul_dvd_mul_left _ (Nat.dvd_of_mod_eq_zero ?_)
    have h4 : a % 4 = 3 := by omega
    rw [Nat.add_mod, Nat.mul_mod, h4]
    omega
  · intro hbit
    refine Nat.mul_dvd_mul_left _ (Nat.dvd_of_mod_eq_zero ?_)
    have h4 : a % 4 = 1 := by omega
    rw [Nat.add_mod, Nat.mul_mod, h4]
    omega

/-- The shift is right for the alignments 4, 8 and 16. -/
theorem shifted_remainder {j : Nat} (n : Nat) (hj : j = 2 ∨ j = 3 ∨ j = 4) :
    (n &&& (2 ^ j - 1)) >>> (2 ^ j / 8) = n / 2 ^ (j - 2) % 4 := by
  rw [Nat.and_two_pow_sub_one_eq_mod, Nat.shiftRight_eq_div_pow]
  rcases hj with rfl | rfl | rfl <;> omega

theorem and_two_pow_eq_zero_iff {k : Nat} : m &&& 2 ^ k = 0 ↔ m / 2 ^ k % 2 = 0 := by
  have hpos := Nat.two_pow_pos k
  rw [Nat.and_two_pow, Nat.testBit_eq_decide_div_mod_eq]
  have hmod := Nat.mod_lt (m / 2 ^ k) Nat.two_pos
  by_cases hbit : m / 2 ^ k % 2 = 1
  · rw [decide_eq_true hbit, hbit]
    simp
  · rw [decide_eq_false hbit]
    simp
    omega

theorem lcm_max_min {j : Nat} (hm : 0 < m) :
    ipcdetail.lcm (Nat.max m (2 ^ j)) (Nat.min m (2 ^ j)) = Nat.lcm m (2 ^ j) % 2 ^ 64 := by
  have hpos : 0 < Nat.min m (2 ^ j) := Nat.lt_min.mpr ⟨hm, Nat.two_pow_pos j⟩
  rw [lcm_eq hpos]
  rcases Nat.le_total m (2 ^ j) with hle | hle
  · rw [show Nat.max m (2 ^ j) = 2 ^ j from Nat.max_eq_right hle,
      show Nat.min m (2 ^ j) = m from Nat.min_eq_left hle, Nat.lcm_comm]
  · rw [show Nat.max m (2 ^ j) = m from Nat.max_eq_left hle,
      show Nat.min m (2 ^ j) = 2 ^ j from Nat.min_eq_right hle]

end interprocess.rbtree_best_fit
