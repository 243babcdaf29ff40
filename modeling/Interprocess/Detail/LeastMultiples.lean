import Interprocess.Detail.Utilities
import Mathlib.Data.Nat.ModEq
import Mathlib.Data.Nat.Prime.Basic
import Mathlib.Order.Bounds.Basic

namespace interprocess.ipcdetail

/-- The multiples of `L` from `n` on. -/
def MultiplesFrom (L n : Nat) : Set Nat :=
  { x | L ∣ x ∧ n ≤ x }

/-- The least multiple of `L` from `n` on. -/
def least_multiple (L n : Nat) : Nat :=
  (n + (L - 1)) / L * L

variable {L n q j : Nat}

theorem isLeast_multiple (hdvd : L ∣ q) (hle : n ≤ q) (hlt : q < n + L) :
    IsLeast (MultiplesFrom L n) q := by
  refine ⟨⟨hdvd, hle⟩, ?_⟩
  rintro x ⟨hx, hnx⟩
  by_contra hxq
  have hgap : L ≤ q - x := Nat.le_of_dvd (by omega) (Nat.dvd_sub hdvd hx)
  omega

theorem least_multiple_bounds (hL : 0 < L) :
    n ≤ least_multiple L n ∧ least_multiple L n < n + L := by
  have hdiv := Nat.div_add_mod (n + (L - 1)) L
  have hmod := Nat.mod_lt (n + (L - 1)) hL
  rw [Nat.mul_comm] at hdiv
  unfold least_multiple
  omega

theorem isLeast_least_multiple (hL : 0 < L) : IsLeast (MultiplesFrom L n) (least_multiple L n) :=
  have hbounds := least_multiple_bounds hL
  isLeast_multiple (Nat.dvd_mul_left _ _) hbounds.1 hbounds.2

theorem eq_least_multiple (hdvd : L ∣ q) (hle : n ≤ q) (hlt : q < n + L) : q = least_multiple L n :=
  (isLeast_multiple hdvd hle hlt).unique (isLeast_least_multiple (by omega))

theorem least_multiple_zero (hL : 0 < L) : least_multiple L 0 = 0 :=
  (eq_least_multiple (Nat.dvd_zero _) (Nat.le_refl 0) (by omega)).symm

/-- Rounding up finds the least multiple, unless nothing is asked for: then the
    subtraction wraps. -/
theorem get_rounded_size_eq_least (hL : 0 < L) (hn : 0 < n) (hfits : least_multiple L n < 2 ^ 64) :
    get_rounded_size n L = least_multiple L n := by
  have hbounds := least_multiple_bounds (n := n) hL
  have hnext := next_multiple_bounds (n := n - 1) hL
  have hleast := eq_least_multiple (Nat.dvd_mul_left L ((n - 1) / L + 1)) (n := n) (by omega)
    (by omega)
  rw [get_rounded_size, size_sub_of_le (b := 1) hn (by omega), hleast, Nat.mod_eq_of_lt hfits]

theorem get_rounded_size_zero (hL : 0 < L) (hlt : L < 2 ^ 64) (hword : ¬ L ∣ 2 ^ 64) :
    get_rounded_size 0 L ≠ 0 := by
  have hnext := next_multiple_bounds (n := 2 ^ 64 - 1) hL
  have hne : ((2 ^ 64 - 1) / L + 1) * L ≠ 2 ^ 64 := fun heq => hword ⟨_, by rw [Nat.mul_comm, heq]⟩
  rw [get_rounded_size, show size_sub 0 1 = 2 ^ 64 - 1 by decide]
  omega

/-- With a power of two, rounding up finds the least multiple also when nothing is
    asked for: then the wrap of the subtraction is undone. -/
theorem get_rounded_size_po2_eq_least (hj : j < 64) (hlt : n < 2 ^ 64)
    (hfits : least_multiple (2 ^ j) n < 2 ^ 64) :
    get_rounded_size_po2 n (2 ^ j) = least_multiple (2 ^ j) n := by
  have hpos := Nat.two_pow_pos j
  have htruncated := get_truncated_size_po2_eq (n := size_sub n 1) (k := j)
    (Nat.mod_lt _ (by decide)) (Nat.le_of_lt hj)
  unfold get_truncated_size_po2 at htruncated
  rw [get_rounded_size_po2, htruncated, ← Nat.succ_mul]
  have hn : n = 0 ∨ 0 < n := Nat.eq_zero_or_pos n
  rcases hn with rfl | hn
  · have hzero := least_multiple_zero hpos
    have hwhole : 2 ^ 64 = 2 ^ (64 - j) * 2 ^ j := by
      rw [← Nat.pow_add, Nat.sub_add_cancel (Nat.le_of_lt hj)]
    have hdiv : (2 ^ 64 - 1) / 2 ^ j + 1 = 2 ^ (64 - j) := by
      rw [hwhole, Nat.mul_comm, Nat.mul_sub_div 0 _ _ (Nat.mul_pos hpos (Nat.two_pow_pos _)),
        Nat.zero_div]
      have := Nat.two_pow_pos (64 - j)
      omega
    rw [show size_sub 0 1 = 2 ^ 64 - 1 by decide, Nat.succ_eq_add_one, hdiv, ← hwhole, hzero,
      Nat.mod_self]
  · have hnext := next_multiple_bounds (n := n - 1) hpos
    have hleast := eq_least_multiple (Nat.dvd_mul_left (2 ^ j) ((n - 1) / 2 ^ j + 1)) (n := n)
      (by omega) (by omega)
    rw [size_sub_of_le (b := 1) hn hlt, Nat.succ_eq_add_one, hleast, Nat.mod_eq_of_lt hfits]

/-- Rounding up commutes with the reduction to `size_type`. -/
theorem get_rounded_size_mod (hL : 0 < L) (hword : L ∣ 2 ^ 64) (n : Nat) :
    get_rounded_size (n % 2 ^ 64) L = least_multiple L n % 2 ^ 64 := by
  have hdiv := Nat.div_add_mod n (2 ^ 64)
  have hmod := Nat.mod_lt n (Nat.two_pow_pos 64)
  have hbounds := least_multiple_bounds (n := n % 2 ^ 64) hL
  have hshift : least_multiple L n = 2 ^ 64 * (n / 2 ^ 64) + least_multiple L (n % 2 ^ 64) := by
    refine (eq_least_multiple ?_ ?_ ?_).symm
    · exact Nat.dvd_add (Nat.dvd_trans hword (Nat.dvd_mul_right _ _)) (Nat.dvd_mul_left _ _)
    · omega
    · omega
  rw [hshift, Nat.mul_add_mod]
  generalize n % 2 ^ 64 = x at *
  rcases Nat.eq_zero_or_pos x with rfl | hx
  · have hwraps := get_rounded_size_mul (n := 0) hL hword (by rw [Nat.zero_mul]; decide)
    rw [Nat.zero_mul] at hwraps
    rw [hwraps, least_multiple_zero hL, Nat.zero_mod]
  · have hnext := next_multiple_bounds (n := x - 1) hL
    have hleast := eq_least_multiple (Nat.dvd_mul_left L ((x - 1) / L + 1)) (n := x) (by omega)
      (by omega)
    rw [get_rounded_size, size_sub_of_le (b := 1) hx hmod, hleast]

theorem lcm_two_pow_of_odd {a k : Nat} (hkj : k ≤ j) (hodd : ¬ 2 ∣ a) :
    Nat.lcm (2 ^ k * a) (2 ^ j) = 2 ^ k * a * 2 ^ (j - k) := by
  have hcoprime : Nat.Coprime a (2 ^ (j - k)) :=
    Nat.Coprime.pow_right _ (Nat.prime_two.coprime_iff_not_dvd.mpr hodd).symm
  have hpow : 2 ^ j = 2 ^ k * 2 ^ (j - k) := by
    rw [← Nat.pow_add, Nat.add_sub_cancel' hkj]
  rw [hpow, Nat.lcm_mul_left, hcoprime.lcm_eq_mul, Nat.mul_assoc]

end interprocess.ipcdetail
