import Mathlib.Data.Nat.GCD.Basic

/-! Arithmetic of `size_type`, 64 bits wide. -/

namespace interprocess.ipcdetail

/-- Subtraction of `size_type`. -/
def size_sub (a b : Nat) : Nat :=
  (a + 2 ^ 64 - b) % 2 ^ 64

/-- Rounds up to a multiple of `round_to`. -/
def get_rounded_size (orig_size round_to : Nat) : Nat :=
  (size_sub orig_size 1 / round_to + 1) * round_to % 2 ^ 64

/-- Truncates to a multiple of `multiple`. -/
def get_truncated_size (orig_size multiple : Nat) : Nat :=
  orig_size / multiple * multiple

/-- Rounds up to a multiple of a power of two; `2 ^ 64 - round_to` has the bits of
    `~(round_to - 1)`. -/
def get_rounded_size_po2 (orig_size round_to : Nat) : Nat :=
  ((size_sub orig_size 1 &&& (2 ^ 64 - round_to)) + round_to) % 2 ^ 64

/-- Truncates to a multiple of a power of two. -/
def get_truncated_size_po2 (orig_size multiple : Nat) : Nat :=
  orig_size &&& (2 ^ 64 - multiple)

/-- Rounding up at compile time, where an overflow is rejected. -/
def ct_rounded_size (OrigSize RoundTo : Nat) : Nat :=
  ((OrigSize - 1) / RoundTo + 1) * RoundTo

/-- Euclid's algorithm, whose loop ends when the remainder is 0. -/
def gcd (A B : Nat) : Nat :=
  if 0 < B ∧ A % B ≠ 0 then gcd B (A % B) else B
termination_by B
decreasing_by exact Nat.mod_lt _ (by omega)

/-- The least common multiple, with the product cut to `size_type`. -/
def lcm (A B : Nat) : Nat :=
  A / gcd A B * B % 2 ^ 64

def multiplication_overflows (a b : Nat) : Bool :=
  2 ^ 32 - 1 < (a ||| b) ∧ b ≠ 0 ∧ (2 ^ 64 - 1) / b < a

def sum_overflows (a b : Nat) : Bool :=
  2 ^ 64 - 1 - a < b

theorem gcd_eq {A B : Nat} (hB : 0 < B) : gcd A B = Nat.gcd A B := by
  fun_induction gcd A B with
  | case1 A B hloop ih => rw [ih (Nat.pos_of_ne_zero hloop.2), Nat.gcd_comm, ← Nat.gcd_rec, Nat.gcd_comm]
  | case2 A B hlast =>
    have hzero : A % B = 0 := by
      by_contra hne
      exact hlast ⟨hB, hne⟩
    exact (Nat.gcd_eq_right (Nat.dvd_of_mod_eq_zero hzero)).symm

theorem lcm_eq {A B : Nat} (hB : 0 < B) : lcm A B = Nat.lcm A B % 2 ^ 64 := by
  rw [lcm, gcd_eq hB, Nat.div_mul_right_comm (Nat.gcd_dvd_left _ _), Nat.lcm_eq_mul_div]

theorem size_sub_of_le {a b : Nat} (hba : b ≤ a) (ha : a < 2 ^ 64) : size_sub a b = a - b := by
  unfold size_sub
  omega

/-- The next multiple of `round_to` above `n`. -/
theorem next_multiple_bounds {n round_to : Nat} (hround : 0 < round_to) :
    n < (n / round_to + 1) * round_to ∧ (n / round_to + 1) * round_to ≤ n + round_to := by
  have hdiv := Nat.div_add_mod n round_to
  have hmod := Nat.mod_lt n hround
  rw [Nat.succ_mul, Nat.mul_comm]
  omega

theorem get_rounded_size_bounds (orig_size : Nat) {round_to : Nat} (hround : 0 < round_to)
    (hpos : 0 < orig_size) (hsize : orig_size + round_to < 2 ^ 64) :
    orig_size ≤ get_rounded_size orig_size round_to ∧
      get_rounded_size orig_size round_to < orig_size + round_to := by
  have hbounds := next_multiple_bounds (n := orig_size - 1) hround
  rw [get_rounded_size, size_sub_of_le (b := 1) hpos (by omega), Nat.mod_eq_of_lt (by omega)]
  omega

theorem le_ct_rounded_size {OrigSize RoundTo : Nat} (hround : 0 < RoundTo) :
    OrigSize ≤ ct_rounded_size OrigSize RoundTo := by
  have hbounds := next_multiple_bounds (n := OrigSize - 1) hround
  rw [ct_rounded_size]
  omega

theorem dvd_ct_rounded_size (OrigSize RoundTo : Nat) : RoundTo ∣ ct_rounded_size OrigSize RoundTo :=
  Nat.dvd_mul_left _ _

/-- Multiples of a power of two that fits a word survive a cut to the word. -/
theorem dvd_mod_two_pow {d n k : Nat} (hk : k ≤ 64) (hd : d = 2 ^ k) (hn : d ∣ n) :
    d ∣ n % 2 ^ 64 := by
  refine (Nat.dvd_mod_iff ?_).mpr hn
  rw [hd]
  exact Nat.pow_dvd_pow 2 hk

/-- On 64 bits the mask of a power of two truncates. -/
theorem get_truncated_size_po2_eq {n k : Nat} (hn : n < 2 ^ 64) (hk : k ≤ 64) :
    get_truncated_size_po2 n (2 ^ k) = n / 2 ^ k * 2 ^ k := by
  have hmask : 2 ^ 64 - 2 ^ k = (2 ^ (64 - k) - 1) * 2 ^ k := by
    rw [Nat.sub_mul, ← Nat.pow_add, Nat.sub_add_cancel hk, Nat.one_mul]
  unfold get_truncated_size_po2
  refine Nat.eq_of_testBit_eq fun i => ?_
  rw [Nat.testBit_and, hmask, Nat.testBit_mul_two_pow, Nat.testBit_mul_two_pow,
    Nat.testBit_two_pow_sub_one, Nat.testBit_div_two_pow]
  by_cases hi : k ≤ i
  · by_cases hi' : i < 64
    · have hlt : i - k < 64 - k := by omega
      simp [hi, hlt, Nat.sub_add_cancel hi]
    · have hbit : n.testBit i = false :=
        Nat.testBit_lt_two_pow (Nat.lt_of_lt_of_le hn (Nat.pow_le_pow_right Nat.two_pos (by omega)))
      simp [hi, hbit, Nat.sub_add_cancel hi]
  · simp [hi]

/-- The mask trick rounds up to a multiple of a power of two, by less than that, and
    by a multiple of any smaller one. -/
theorem align_up_bounds {n k d : Nat} (hk : k < 64) (hd : d ∣ 2 ^ k) (hn : d ∣ n)
    (hlt : n + 2 ^ k < 2 ^ 64 + d) :
    2 ^ k ∣ get_truncated_size_po2 (n + 2 ^ k - 1) (2 ^ k) ∧
      n ≤ get_truncated_size_po2 (n + 2 ^ k - 1) (2 ^ k) ∧
      get_truncated_size_po2 (n + 2 ^ k - 1) (2 ^ k) + d ≤ n + 2 ^ k := by
  have hsum : d ∣ n + 2 ^ k := Nat.dvd_add hn hd
  have hfits : n + 2 ^ k ≤ 2 ^ 64 := by
    obtain ⟨a, ha⟩ := hsum
    obtain ⟨b, hb⟩ := Nat.dvd_trans hd (Nat.pow_dvd_pow 2 (Nat.le_of_lt hk))
    rw [ha, hb] at hlt ⊢
    refine Nat.mul_le_mul_left _ ?_
    by_contra hgt
    have hmul : d * (b + 1) ≤ d * a := Nat.mul_le_mul_left _ (by omega)
    rw [Nat.mul_succ] at hmul
    omega
  have htwo := Nat.two_pow_pos k
  rw [get_truncated_size_po2_eq (by omega) (Nat.le_of_lt hk)]
  have hdiv := Nat.div_add_mod (n + 2 ^ k - 1) (2 ^ k)
  have hmod := Nat.mod_lt (n + 2 ^ k - 1) htwo
  rw [Nat.mul_comm] at hdiv
  have hmultiple : 2 ^ k ∣ (n + 2 ^ k - 1) / 2 ^ k * 2 ^ k := Nat.dvd_mul_left _ _
  generalize (n + 2 ^ k - 1) / 2 ^ k * 2 ^ k = r at *
  refine ⟨hmultiple, by omega, ?_⟩
  obtain ⟨a, ha⟩ := hsum
  obtain ⟨b, hb⟩ := Nat.dvd_trans hd hmultiple
  have hlt' : d * b < d * a := by omega
  have hba : b + 1 ≤ a := Nat.lt_of_mul_lt_mul_left hlt'
  have hmul : d * (b + 1) ≤ d * a := Nat.mul_le_mul_left _ hba
  rw [Nat.mul_succ] at hmul
  omega

/-- A multiple is rounded to itself, 0 through the overflow. -/
theorem get_rounded_size_mul {n round_to : Nat} (hround : 0 < round_to) (hdvd : round_to ∣ 2 ^ 64)
    (hlt : n * round_to < 2 ^ 64) : get_rounded_size (n * round_to) round_to = n * round_to := by
  obtain ⟨q, hq⟩ := hdvd
  unfold get_rounded_size
  cases n with
  | zero =>
    have hsub : size_sub (0 * round_to) 1 = round_to * q - 1 := by
      rw [← hq, Nat.zero_mul]
      decide
    have hqpos : 0 < q := Nat.pos_of_ne_zero fun hzero => by
      rw [hzero] at hq
      omega
    have hdiv : (round_to * q - 1) / round_to = q - 1 := by
      rw [Nat.mul_sub_div 0 round_to q (Nat.mul_pos hround hqpos), Nat.zero_div]
    rw [hsub, hdiv, Nat.sub_add_cancel hqpos, Nat.mul_comm, ← hq, Nat.zero_mul, Nat.mod_self]
  | succ n =>
    have hpos : 0 < (n + 1) * round_to := Nat.mul_pos (Nat.succ_pos n) hround
    have hdiv : ((n + 1) * round_to - 1) / round_to = n := by
      rw [Nat.mul_comm] at hpos ⊢
      rw [Nat.mul_sub_div 0 round_to (n + 1) hpos, Nat.zero_div]
      omega
    rw [size_sub_of_le hpos hlt, hdiv, Nat.mod_eq_of_lt hlt]

/-- The units of a rounded size are the fewest that have room for it. -/
theorem rounded_units_le_iff {n round_to q : Nat} (hround : 0 < round_to)
    (hdvd : round_to ∣ 2 ^ 64) (hn : n + round_to ≤ 2 ^ 64) :
    get_rounded_size n round_to / round_to ≤ q ↔ n ≤ q * round_to := by
  by_cases hpos : 0 < n
  · have hbounds := next_multiple_bounds (n := n - 1) hround
    have hrounded : get_rounded_size n round_to = ((n - 1) / round_to + 1) * round_to := by
      rw [get_rounded_size, size_sub_of_le (b := 1) hpos (by omega), Nat.mod_eq_of_lt (by omega)]
    rw [hrounded, Nat.mul_div_cancel _ hround, Nat.succ_le_iff, Nat.div_lt_iff_lt_mul hround]
    omega
  · have hzero : n = 0 := by omega
    have hrounded := get_rounded_size_mul (n := 0) hround hdvd (by rw [Nat.zero_mul]; decide)
    rw [Nat.zero_mul] at hrounded
    rw [hzero, hrounded, Nat.zero_div]
    simp

end interprocess.ipcdetail
