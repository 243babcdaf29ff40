import Interprocess.Detail.LeastMultiples
import Interprocess.MemAlgo.RbtreeBestFit.Multiples

namespace interprocess.rbtree_best_fit

open ipcdetail

/-- The bytes that the objects received in front of the buffer leave missing. -/
def missing (backwards_multiple received_size size_to_achieve : Nat) : Nat :=
  size_to_achieve - get_truncated_size received_size backwards_multiple

/-- What the code computes when no shortcut applies. -/
def general_branch (backwards_multiple alignment received_size size_to_achieve : Nat) : Nat × Nat :=
  let max := Nat.max backwards_multiple alignment
  let min := Nat.min backwards_multiple alignment
  (ipcdetail.lcm max min, get_rounded_size (size_sub size_to_achieve
    (get_truncated_size received_size backwards_multiple)) (ipcdetail.lcm max min))

/-- The result is the least common multiple and the least of its multiples that
    covers the missing bytes. -/
def CalculatesExactly (backwards_multiple alignment received_size size_to_achieve : Nat) : Prop :=
  ∃ needs, calculate_lcm_and_needs_backwards_lcmed backwards_multiple alignment received_size
      size_to_achieve = some (Nat.lcm backwards_multiple alignment, needs) ∧
    IsLeast (MultiplesFrom (Nat.lcm backwards_multiple alignment)
      (missing backwards_multiple received_size size_to_achieve)) needs

/-- The shortcut for a quarter of the alignment is taken. -/
def QuarterMultiple (backwards_multiple alignment : Nat) : Prop :=
  backwards_multiple &&& size_sub backwards_multiple 1 ≠ 0 ∧
    ¬ alignment / 2 ∣ backwards_multiple ∧ alignment / 4 ∣ backwards_multiple

/-- No shortcut is taken. -/
def OtherMultiple (backwards_multiple alignment : Nat) : Prop :=
  backwards_multiple &&& size_sub backwards_multiple 1 ≠ 0 ∧ ¬ alignment / 4 ∣ backwards_multiple

/-- What the calculation is made for: the bytes to achieve are a multiple of the
    object size, enough for the objects received, and no product wraps. -/
structure Calculable (m j received s : Nat) : Prop where
  alignment_ge : 2 ≤ j
  alignment_lt : j < 64
  multiple_pos : 0 < m
  multiple_lt : m < 2 ^ 64
  received_lt : received < 2 ^ 64
  achieve_dvd : m ∣ s
  achieve_lt : s < 2 ^ 64
  truncated_le : get_truncated_size received m ≤ s
  lcm_lt : Nat.lcm m (2 ^ j) < 2 ^ 64
  least_lt : least_multiple (Nat.lcm m (2 ^ j)) (missing m received s) < 2 ^ 64

variable {m s received j : Nat}

theorem size_sub_truncated (hle : get_truncated_size received m ≤ s) (hs : s < 2 ^ 64) :
    size_sub s (get_truncated_size received m) = missing m received s :=
  size_sub_of_le hle hs

theorem dvd_missing (hms : m ∣ s) : m ∣ missing m received s :=
  Nat.dvd_sub hms (Nat.dvd_mul_left _ _)

theorem missing_lt (hs : s < 2 ^ 64) : missing m received s < 2 ^ 64 :=
  Nat.lt_of_le_of_lt (Nat.sub_le _ _) hs

theorem power_of_two_of_and (hm : 0 < m) (hm' : m < 2 ^ 64) (hpow : m &&& size_sub m 1 = 0) :
    ∃ i < 64, m = 2 ^ i := by
  rw [size_sub_of_le (b := 1) hm hm'] at hpow
  obtain ⟨i, rfl⟩ := (Nat.and_sub_one_eq_zero_iff_isPowerOfTwo (by omega)).mp hpow
  exact ⟨i, (Nat.pow_lt_pow_iff_right (by decide)).mp hm', rfl⟩

theorem lcm_two_pow_two_pow (i j : Nat) : Nat.lcm (2 ^ i) (2 ^ j) = 2 ^ Nat.max i j := by
  rcases Nat.le_total i j with hij | hij
  · rw [show Nat.max i j = j from Nat.max_eq_right hij]
    exact Nat.lcm_eq_right (Nat.pow_dvd_pow 2 hij)
  · rw [show Nat.max i j = i from Nat.max_eq_left hij]
    exact Nat.lcm_eq_left (Nat.pow_dvd_pow 2 hij)

theorem max_two_pow (i j : Nat) : Nat.max (2 ^ i) (2 ^ j) = 2 ^ Nat.max i j := by
  rcases Nat.le_total i j with hij | hij
  · rw [show Nat.max i j = j from Nat.max_eq_right hij]
    exact Nat.max_eq_right (Nat.pow_le_pow_right (by decide) hij)
  · rw [show Nat.max i j = i from Nat.max_eq_left hij]
    exact Nat.max_eq_left (Nat.pow_le_pow_right (by decide) hij)

/-- Powers of two take the first shortcut, and it is exact. -/
theorem power_branch (hj : j < 64) (hm : 0 < m) (hm' : m < 2 ^ 64) (hr : received < 2 ^ 64)
    (hms : m ∣ s) (hs : s < 2 ^ 64) (hle : get_truncated_size received m ≤ s)
    (hfits : least_multiple (Nat.lcm m (2 ^ j)) (missing m received s) < 2 ^ 64)
    (hpow : m &&& size_sub m 1 = 0) :
    calculate_lcm_and_needs_backwards_lcmed m (2 ^ j) received s =
      some (Nat.lcm m (2 ^ j), least_multiple (Nat.lcm m (2 ^ j)) (missing m received s)) := by
  obtain ⟨i, hi, rfl⟩ := power_of_two_of_and hm hm' hpow
  have hmask : s &&& size_sub (2 ^ i) 1 = 0 := by
    rw [size_sub_of_le (b := 1) hm hm', and_pred_eq_zero_iff]
    exact hms
  have hmax : Nat.max i j < 64 := Nat.max_lt.mpr ⟨hi, hj⟩
  have htruncated : get_truncated_size_po2 received (2 ^ i) = get_truncated_size received (2 ^ i) :=
    get_truncated_size_po2_eq hr (Nat.le_of_lt hi)
  rw [lcm_two_pow_two_pow] at hfits ⊢
  unfold calculate_lcm_and_needs_backwards_lcmed
  simp only [hpow, hmask, if_true, ne_eq, not_true, if_false]
  rw [htruncated, size_sub_truncated hle hs, max_two_pow,
    get_rounded_size_po2_eq_least hmax (missing_lt hs) hfits]

/-- A multiple of the alignment is the least common multiple, and the missing bytes
    are already one of its multiples. -/
theorem multiple_branch (hms : m ∣ s) (hm : 0 < m) (hs : s < 2 ^ 64)
    (hle : get_truncated_size received m ≤ s) (hpow : m &&& size_sub m 1 ≠ 0) (hall : 2 ^ j ∣ m) :
    calculate_lcm_and_needs_backwards_lcmed m (2 ^ j) received s =
      some (Nat.lcm m (2 ^ j), least_multiple (Nat.lcm m (2 ^ j)) (missing m received s)) := by
  have hleast : missing m received s = least_multiple m (missing m received s) :=
    eq_least_multiple (dvd_missing hms) (Nat.le_refl _) (by omega)
  unfold calculate_lcm_and_needs_backwards_lcmed
  simp only [if_neg hpow, and_pred_eq_zero_iff, if_pos hall]
  rw [size_sub_truncated hle hs, Nat.lcm_eq_left hall, ← hleast]

theorem lcm_of_half (hj : 1 ≤ j) (hhalf : 2 ^ (j - 1) ∣ m) (hodd : ¬ 2 ^ j ∣ m) :
    Nat.lcm m (2 ^ j) = m * 2 := by
  obtain ⟨a, rfl⟩ := hhalf
  have ha : ¬ 2 ∣ a := by
    intro h
    refine hodd ?_
    rw [show j = j - 1 + 1 by omega, Nat.pow_succ, Nat.add_sub_cancel]
    exact Nat.mul_dvd_mul_left _ h
  rw [lcm_two_pow_of_odd (by omega) ha, show j - (j - 1) = 1 by omega, Nat.pow_one]

theorem lcm_of_quarter (hj : 2 ≤ j) (hquarter : 2 ^ (j - 2) ∣ m) (hodd : ¬ 2 ^ (j - 1) ∣ m) :
    Nat.lcm m (2 ^ j) = m * 4 := by
  obtain ⟨a, rfl⟩ := hquarter
  have ha : ¬ 2 ∣ a := by
    intro h
    refine hodd ?_
    rw [show j - 1 = j - 2 + 1 by omega, Nat.pow_succ]
    exact Nat.mul_dvd_mul_left _ h
  rw [lcm_two_pow_of_odd (by omega) ha, show j - (j - 2) = 2 by omega, show 2 ^ 2 = 4 from rfl]

/-- Some copies of the objects, fewer than the least common multiple holds, turn the
    missing bytes into the least multiple. -/
theorem eq_least_multiple_of_copies {k t n : Nat} (hlcm : Nat.lcm m (2 ^ j) = m * k) (hn : m ∣ n)
    (ht : t < k) (hm : 0 < m) (hdvd : 2 ^ j ∣ n + t * m) :
    n + t * m = least_multiple (Nat.lcm m (2 ^ j)) n := by
  have hlt : t * m < m * k := by
    rw [Nat.mul_comm]
    exact Nat.mul_lt_mul_of_pos_left ht hm
  refine eq_least_multiple (Nat.lcm_dvd (Nat.dvd_add hn (Nat.dvd_mul_left _ _)) hdvd) ?_ ?_
  · exact Nat.le_add_right _ _
  · rw [hlcm]
    exact Nat.add_lt_add_left hlt n

/-- The shortcut for half of the alignment is exact. -/
theorem half_branch (hj : 1 ≤ j) (hm : 0 < m) (hms : m ∣ s) (hs : s < 2 ^ 64)
    (hle : get_truncated_size received m ≤ s) (hlcm : Nat.lcm m (2 ^ j) < 2 ^ 64)
    (hfits : least_multiple (Nat.lcm m (2 ^ j)) (missing m received s) < 2 ^ 64)
    (hpow : m &&& size_sub m 1 ≠ 0) (hall : ¬ 2 ^ j ∣ m) (hhalf : 2 ^ (j - 1) ∣ m) :
    calculate_lcm_and_needs_backwards_lcmed m (2 ^ j) received s =
      some (Nat.lcm m (2 ^ j), least_multiple (Nat.lcm m (2 ^ j)) (missing m received s)) := by
  have hdouble := lcm_of_half hj hhalf hall
  have hdvd : m ∣ missing m received s := dvd_missing hms
  have hcopies := fun t ht => eq_least_multiple_of_copies (t := t) hdouble hdvd ht hm
  unfold calculate_lcm_and_needs_backwards_lcmed
  simp only [if_neg hpow, two_pow_div_two hj, and_pred_eq_zero_iff, if_neg hall, if_pos hhalf]
  rw [size_sub_truncated hle hs, ← hdouble, Nat.mod_eq_of_lt hlcm]
  split_ifs with hrest
  · rw [ne_eq, and_pred_eq_zero_iff] at hrest
    have hone := hcopies 1 (by decide) (by
      rw [Nat.one_mul]
      exact half_dvd hj hhalf hall hdvd hrest)
    rw [Nat.one_mul] at hone
    rw [hone, Nat.mod_eq_of_lt hfits]
  · rw [ne_eq, and_pred_eq_zero_iff, not_not] at hrest
    have hzero := hcopies 0 (by decide) (by simpa using hrest)
    rw [Nat.zero_mul, Nat.add_zero] at hzero
    rw [← hzero]

/-- What the shortcut for a quarter of the alignment makes of `n` missing bytes. -/
def quarter_needs (m alignment n : Nat) : Nat :=
  let remainder := (n &&& (alignment - 1)) >>> (alignment / 8)
  if remainder ≠ 0 then
    if m &&& alignment / 2 ≠ 0 then (n + remainder * m) % 2 ^ 64
    else (n + size_sub 4 remainder * m) % 2 ^ 64
  else n

theorem quarter_branch (hj : 2 ≤ j) (hs : s < 2 ^ 64) (hle : get_truncated_size received m ≤ s)
    (hlcm : Nat.lcm m (2 ^ j) < 2 ^ 64) (hquarter : QuarterMultiple m (2 ^ j)) :
    calculate_lcm_and_needs_backwards_lcmed m (2 ^ j) received s =
      some (Nat.lcm m (2 ^ j), quarter_needs m (2 ^ j) (missing m received s)) := by
  obtain ⟨hpow, hhalf, hquarter⟩ := hquarter
  have hfour : 2 ^ j / 4 = 2 ^ (j - 2) := Nat.pow_div (n := 2) hj Nat.two_pos
  have htwo := two_pow_div_two (j := j) (by omega)
  rw [hfour] at hquarter
  rw [htwo] at hhalf
  have hall : ¬ 2 ^ j ∣ m := fun h => hhalf (Nat.dvd_trans (Nat.pow_dvd_pow 2 (by omega)) h)
  have hfourfold := lcm_of_quarter hj hquarter hhalf
  unfold calculate_lcm_and_needs_backwards_lcmed
  simp only [if_neg hpow, htwo, hfour, and_pred_eq_zero_iff, if_neg hall, if_neg hhalf,
    if_pos hquarter, quarter_needs]
  rw [size_sub_truncated hle hs, ← hfourfold, Nat.mod_eq_of_lt hlcm]

/-- The shift is right up to alignment 16. -/
theorem quarter_needs_eq {n : Nat} (hj : j = 2 ∨ j = 3 ∨ j = 4) (hm : 0 < m) (hn : m ∣ n)
    (hhalf : ¬ 2 ^ (j - 1) ∣ m) (hquarter : 2 ^ (j - 2) ∣ m)
    (hfits : least_multiple (Nat.lcm m (2 ^ j)) n < 2 ^ 64) :
    quarter_needs m (2 ^ j) n = least_multiple (Nat.lcm m (2 ^ j)) n := by
  have hstep : j - 2 + 1 = j - 1 := by omega
  have hfourfold := lcm_of_quarter (by omega) hquarter hhalf
  have hquarters := quarter_dvd hquarter (hstep ▸ hhalf) hn
  have hcopies := fun t ht => eq_least_multiple_of_copies (t := t) hfourfold hn ht hm
  have hr := Nat.mod_lt (n / 2 ^ (j - 2)) (show 0 < 4 by decide)
  have hbits := Nat.mod_lt (m / 2 ^ (j - 1)) Nat.two_pos
  rw [hstep, show j - 2 + 2 = j by omega] at hquarters
  simp only [quarter_needs, two_pow_div_two (show 1 ≤ j by omega), and_two_pow_eq_zero_iff, ne_eq]
  rw [shifted_remainder n hj, size_sub_of_le (Nat.le_of_lt hr) (by decide)]
  split_ifs with hzero hbit
  · obtain ⟨b, hb⟩ := Nat.dvd_trans hquarter hn
    have hpow : 2 ^ j = 2 ^ (j - 2) * 4 := by
      rw [show 4 = 2 ^ 2 from rfl, ← Nat.pow_add, show j - 2 + 2 = j by omega]
    have hwhole : 2 ^ j ∣ n := by
      rw [hb, Nat.mul_div_cancel_left _ (Nat.two_pow_pos _)] at hzero
      rw [hb, hpow]
      exact Nat.mul_dvd_mul_left _ (Nat.dvd_of_mod_eq_zero hzero)
    have hnone := hcopies 0 (by decide) (by rwa [Nat.zero_mul, Nat.add_zero])
    rwa [Nat.zero_mul, Nat.add_zero] at hnone
  · have hcopy := hcopies _ (by omega) (hquarters.2 hbit)
    rw [hcopy, Nat.mod_eq_of_lt hfits]
  · have hcopy := hcopies _ hr (hquarters.1 (by omega))
    rw [hcopy, Nat.mod_eq_of_lt hfits]

/-- From alignment 64 on the shift loses the whole remainder. A shift by 64 bits or
    more, undefined in the source, gives 0. -/
theorem shifted_away (n : Nat) (hj : 6 ≤ j) : (n &&& (2 ^ j - 1)) >>> (2 ^ j / 8) = 0 := by
  have hmod := Nat.mod_lt n (Nat.two_pow_pos j)
  have heighth : 2 ^ j / 8 = 2 ^ (j - 3) := Nat.pow_div (n := 3) (by omega) Nat.two_pos
  have hself := Nat.lt_two_pow_self (n := j - 6)
  have hpow : 2 ^ (j - 3) = 2 ^ (j - 6) * 8 := by
    rw [show 8 = 2 ^ 3 from rfl, ← Nat.pow_add, show j - 6 + 3 = j - 3 by omega]
  rw [Nat.and_two_pow_sub_one_eq_mod, Nat.shiftRight_eq_div_pow, heighth]
  refine Nat.div_eq_of_lt (Nat.lt_of_lt_of_le hmod (Nat.pow_le_pow_right Nat.two_pos ?_))
  omega

/-- From alignment 32 on no remainder is repaired. -/
theorem quarter_needs_not_dvd {n : Nat} (hj : 5 ≤ j) (hn : m ∣ n) (hhalf : ¬ 2 ^ (j - 1) ∣ m)
    (hquarter : 2 ^ (j - 2) ∣ m) (hrest : ¬ 2 ^ j ∣ n) :
    ¬ 2 ^ j ∣ quarter_needs m (2 ^ j) n := by
  unfold quarter_needs
  simp only
  rcases Nat.eq_or_lt_of_le hj with rfl | hj
  · obtain ⟨a, rfl⟩ := hquarter
    obtain ⟨b, rfl⟩ := hn
    have hword : 2 ^ 5 ∣ 2 ^ 64 := Nat.pow_dvd_pow 2 (by decide)
    rw [Nat.mul_assoc] at hrest ⊢
    rw [two_pow_div_two (j := 5) (by decide), Nat.and_two_pow_sub_one_eq_mod]
    simp only [ne_eq, and_two_pow_eq_zero_iff]
    generalize a * b = c at *
    have hremainder : (2 ^ (5 - 2) * c % 2 ^ 5) >>> (2 ^ 5 / 8) = c % 4 / 2 := by
      rw [Nat.shiftRight_eq_div_pow]
      omega
    have hcases : c % 4 / 2 = 0 ∨ c % 4 / 2 = 1 := by omega
    rw [hremainder]
    rcases hcases with hzero | hone
    · rw [hzero]
      simpa using hrest
    · rw [hone, show size_sub 4 1 = 3 by decide, if_pos Nat.one_ne_zero]
      by_cases hbit : 2 ^ (5 - 2) * a / 2 ^ (5 - 1) % 2 = 0
      · rw [if_neg (not_not.mpr hbit), Nat.dvd_mod_iff hword]
        omega
      · rw [if_pos hbit, Nat.dvd_mod_iff hword]
        omega
  · rw [shifted_away n hj]
    simpa using hrest

/-- A quarter of the alignment whose missing bytes are aligned already. -/
theorem quarter_needs_of_dvd {n : Nat} (hn : 2 ^ j ∣ n) : quarter_needs m (2 ^ j) n = n := by
  have hmask : n &&& (2 ^ j - 1) = 0 := and_pred_eq_zero_iff.mpr hn
  simp [quarter_needs, hmask]

theorem other_branch (hj : 2 ≤ j) (hother : OtherMultiple m (2 ^ j)) :
    calculate_lcm_and_needs_backwards_lcmed m (2 ^ j) received s =
      some (general_branch m (2 ^ j) received s) := by
  obtain ⟨hpow, hquarter⟩ := hother
  have hfour : 2 ^ j / 4 = 2 ^ (j - 2) := Nat.pow_div (n := 2) hj Nat.two_pos
  have htwo := two_pow_div_two (j := j) (by omega)
  rw [hfour] at hquarter
  have hhalf : ¬ 2 ^ (j - 1) ∣ m := fun h =>
    hquarter (Nat.dvd_trans (Nat.pow_dvd_pow 2 (by omega)) h)
  have hall : ¬ 2 ^ j ∣ m := fun h => hquarter (Nat.dvd_trans (Nat.pow_dvd_pow 2 (by omega)) h)
  unfold calculate_lcm_and_needs_backwards_lcmed general_branch
  simp only [if_neg hpow, htwo, hfour, and_pred_eq_zero_iff, if_neg hall, if_neg hhalf,
    if_neg hquarter]

theorem Calculable.lcm_pos (hcalc : Calculable m j received s) : 0 < Nat.lcm m (2 ^ j) :=
  Nat.lcm_pos hcalc.multiple_pos (Nat.two_pow_pos j)

theorem Calculable.general_branch_eq (hcalc : Calculable m j received s) :
    general_branch m (2 ^ j) received s =
      (Nat.lcm m (2 ^ j), get_rounded_size (missing m received s) (Nat.lcm m (2 ^ j))) := by
  simp only [general_branch, lcm_max_min hcalc.multiple_pos, Nat.mod_eq_of_lt hcalc.lcm_lt,
    size_sub_truncated hcalc.truncated_le hcalc.achieve_lt]

/-- No branch is wrong, except the shortcut for a quarter of the alignment and the
    general branch when nothing is missing. -/
theorem Calculable.calculate_eq (hcalc : Calculable m j received s)
    (hother : OtherMultiple m (2 ^ j) → 0 < missing m received s)
    (hquarter : QuarterMultiple m (2 ^ j) → 2 ^ j ≤ 16 ∨ 2 ^ j ∣ missing m received s) :
    calculate_lcm_and_needs_backwards_lcmed m (2 ^ j) received s =
      some (Nat.lcm m (2 ^ j), least_multiple (Nat.lcm m (2 ^ j)) (missing m received s)) := by
  have hgeneral := hcalc.general_branch_eq
  obtain ⟨hj, hj', hm, hm', hr, hms, hs, hle, hlcm, hfits⟩ := hcalc
  have hfour : 2 ^ j / 4 = 2 ^ (j - 2) := Nat.pow_div (n := 2) hj Nat.two_pos
  have htwo := two_pow_div_two (j := j) (by omega)
  by_cases hpow : m &&& size_sub m 1 = 0
  · exact power_branch hj' hm hm' hr hms hs hle hfits hpow
  by_cases hall : 2 ^ j ∣ m
  · exact multiple_branch hms hm hs hle hpow hall
  by_cases hhalf : 2 ^ (j - 1) ∣ m
  · exact half_branch (by omega) hm hms hs hle hlcm hfits hpow hall hhalf
  by_cases hfourth : 2 ^ (j - 2) ∣ m
  · have htaken : QuarterMultiple m (2 ^ j) := ⟨hpow, htwo ▸ hhalf, hfour ▸ hfourth⟩
    have hn : m ∣ missing m received s := dvd_missing hms
    rw [quarter_branch hj hs hle hlcm htaken]
    rcases hquarter htaken with hsmall | haligned
    · have hj₄ : 2 ^ j ≤ 2 ^ 4 := hsmall
      have hj₅ := (Nat.pow_le_pow_iff_right (by decide)).mp hj₄
      rw [quarter_needs_eq (by omega) hm hn hhalf hfourth hfits]
    · have hlcmpos := Nat.lcm_pos hm (Nat.two_pow_pos j)
      have hleast := eq_least_multiple (Nat.lcm_dvd hn haligned) (Nat.le_refl _) (by omega)
      rw [quarter_needs_of_dvd haligned, ← hleast]
  · have htaken : OtherMultiple m (2 ^ j) := ⟨hpow, hfour ▸ hfourth⟩
    rw [other_branch hj htaken, hgeneral,
      get_rounded_size_eq_least (Nat.lcm_pos hm (Nat.two_pow_pos j)) (hother htaken) hfits]

/-- The least common multiple with an object size that is no power of two does not
    divide the size of the address space. -/
theorem Calculable.not_lcm_dvd (hcalc : Calculable m j received s)
    (hpow : m &&& size_sub m 1 ≠ 0) : ¬ Nat.lcm m (2 ^ j) ∣ 2 ^ 64 := by
  intro hdvd
  obtain ⟨i, -, rfl⟩ := (Nat.dvd_prime_pow Nat.prime_two).mp
    (Nat.dvd_trans (Nat.dvd_lcm_left m (2 ^ j)) hdvd)
  refine hpow ?_
  rw [size_sub_of_le (b := 1) hcalc.multiple_pos hcalc.multiple_lt, and_pred_eq_zero_iff]

/-- Nothing missing is rounded up to something, unless the object size is a power of
    two. -/
theorem Calculable.general_branch_ne_zero (hcalc : Calculable m j received s)
    (hpow : m &&& size_sub m 1 ≠ 0) (hzero : missing m received s = 0) :
    (general_branch m (2 ^ j) received s).2 ≠ 0 := by
  rw [hcalc.general_branch_eq, hzero]
  exact get_rounded_size_zero hcalc.lcm_pos hcalc.lcm_lt (hcalc.not_lcm_dvd hpow)

/-- The general branch is exact when something is missing or the object size is a
    power of two. -/
theorem Calculable.general_branch_exact (hcalc : Calculable m j received s)
    (hpow : m &&& size_sub m 1 ≠ 0 → 0 < missing m received s) :
    general_branch m (2 ^ j) received s =
      (Nat.lcm m (2 ^ j), least_multiple (Nat.lcm m (2 ^ j)) (missing m received s)) := by
  rw [hcalc.general_branch_eq]
  by_cases hpos : 0 < missing m received s
  · rw [get_rounded_size_eq_least hcalc.lcm_pos hpos hcalc.least_lt]
  · have hzero : missing m received s = 0 := by omega
    have htwo : m &&& size_sub m 1 = 0 := by
      by_contra hne
      exact hpos (hpow hne)
    obtain ⟨i, hi, rfl⟩ := power_of_two_of_and hcalc.multiple_pos hcalc.multiple_lt htwo
    have hmax : Nat.max i j ≤ 64 := Nat.max_le.mpr ⟨Nat.le_of_lt hi, Nat.le_of_lt hcalc.alignment_lt⟩
    have hwraps := get_rounded_size_mul (n := 0) (Nat.two_pow_pos (Nat.max i j))
      (Nat.pow_dvd_pow 2 hmax) (by rw [Nat.zero_mul]; decide)
    rw [hzero, lcm_two_pow_two_pow, least_multiple_zero (Nat.two_pow_pos _)]
    rw [Nat.zero_mul] at hwraps
    rw [hwraps]

/-- An aligned distance from the shortcut for a quarter of the alignment was computed
    with a small alignment, or without a remainder. -/
theorem Calculable.aligned_of_quarter (hcalc : Calculable m j received s) {lcm_size needs : Nat}
    (hneeds : calculate_lcm_and_needs_backwards_lcmed m (2 ^ j) received s = some (lcm_size, needs))
    (hdvd : 2 ^ j ∣ needs) (htaken : QuarterMultiple m (2 ^ j)) :
    2 ^ j ≤ 16 ∨ 2 ^ j ∣ missing m received s := by
  have hj := hcalc.alignment_ge
  rw [quarter_branch hj hcalc.achieve_lt hcalc.truncated_le hcalc.lcm_lt htaken] at hneeds
  cases hneeds
  by_contra hneither
  obtain ⟨hlarge, hrest⟩ := not_or.mp hneither
  have hj₅ : 5 ≤ j := by
    by_contra hlt
    exact hlarge (Nat.pow_le_pow_right Nat.two_pos (show j ≤ 4 by omega))
  obtain ⟨-, hhalf, hquarter⟩ := htaken
  rw [two_pow_div_two (by omega)] at hhalf
  rw [show 2 ^ j / 4 = 2 ^ (j - 2) from Nat.pow_div (n := 2) hj Nat.two_pos] at hquarter
  exact quarter_needs_not_dvd hj₅ (dvd_missing hcalc.achieve_dvd) hhalf hquarter hrest hdvd

theorem Calculable.calculatesExactly_iff (hcalc : Calculable m j received s) :
    CalculatesExactly m (2 ^ j) received s ↔
      (OtherMultiple m (2 ^ j) → 0 < missing m received s) ∧
        (QuarterMultiple m (2 ^ j) → 2 ^ j ≤ 16 ∨ 2 ^ j ∣ missing m received s) := by
  constructor
  · rintro ⟨needs, hneeds, ⟨hdvd, -⟩, hlower⟩
    refine ⟨fun hother => ?_, fun htaken => ?_⟩
    · by_contra hnot
      have hzero : missing m received s = 0 := by omega
      have hne := hcalc.general_branch_ne_zero hother.1 hzero
      have hnone : needs ≤ 0 := hlower ⟨Nat.dvd_zero _, by omega⟩
      rw [other_branch hcalc.alignment_ge hother] at hneeds
      rw [Option.some.inj hneeds] at hne
      exact hne (Nat.le_zero.mp hnone)
    · exact hcalc.aligned_of_quarter hneeds (Nat.dvd_trans (Nat.dvd_lcm_right _ _) hdvd) htaken
  · rintro ⟨hother, hquarter⟩
    exact ⟨_, hcalc.calculate_eq hother hquarter, isLeast_least_multiple hcalc.lcm_pos⟩

theorem Calculable.agrees_iff (hcalc : Calculable m j received s) :
    calculate_lcm_and_needs_backwards_lcmed m (2 ^ j) received s =
        some (general_branch m (2 ^ j) received s) ↔
      (m &&& size_sub m 1 ≠ 0 → ¬ OtherMultiple m (2 ^ j) → 0 < missing m received s) ∧
        (QuarterMultiple m (2 ^ j) → 2 ^ j ≤ 16 ∨ 2 ^ j ∣ missing m received s) := by
  constructor
  · intro hagree
    refine ⟨fun hpow hshortcut => ?_, fun htaken => ?_⟩
    · by_contra hnot
      have hzero : missing m received s = 0 := by omega
      have hne := hcalc.general_branch_ne_zero hpow hzero
      rw [hcalc.calculate_eq (absurd · hshortcut) (fun _ => Or.inr (hzero ▸ Nat.dvd_zero _)), hzero,
        least_multiple_zero hcalc.lcm_pos] at hagree
      rw [← Option.some.inj hagree] at hne
      exact hne rfl
    · by_cases hpos : 0 < missing m received s
      · rw [hcalc.general_branch_exact fun _ => hpos] at hagree
        exact hcalc.aligned_of_quarter hagree
          (Nat.dvd_trans (Nat.dvd_lcm_right _ _) (Nat.dvd_mul_left _ _)) htaken
      · rw [Nat.eq_zero_of_not_pos hpos]
        exact Or.inr (Nat.dvd_zero _)
  · rintro ⟨hshortcut, hquarter⟩
    by_cases hother : OtherMultiple m (2 ^ j)
    · exact other_branch hcalc.alignment_ge hother
    · rw [hcalc.calculate_eq (absurd · hother) hquarter,
        hcalc.general_branch_exact fun hpow => hshortcut hpow hother]

/-- The distance and the least common multiple are exact unless no shortcut is taken
    and nothing is missing, or the shortcut for a quarter of the alignment is taken
    with an alignment above 16 and a remainder. The shortcuts agree with the general
    branch unless that remainder is lost, or nothing is missing and the object size
    is no power of two. -/
theorem calculate_lcm_and_needs_backwards_lcmed_exact (hcalc : Calculable m j received s) :
    (CalculatesExactly m (2 ^ j) received s ↔
      (OtherMultiple m (2 ^ j) → 0 < missing m received s) ∧
        (QuarterMultiple m (2 ^ j) → 2 ^ j ≤ 16 ∨ 2 ^ j ∣ missing m received s)) ∧
    (calculate_lcm_and_needs_backwards_lcmed m (2 ^ j) received s =
        some (general_branch m (2 ^ j) received s) ↔
      (m &&& size_sub m 1 ≠ 0 → ¬ OtherMultiple m (2 ^ j) → 0 < missing m received s) ∧
        (QuarterMultiple m (2 ^ j) → 2 ^ j ≤ 16 ∨ 2 ^ j ∣ missing m received s)) :=
  ⟨hcalc.calculatesExactly_iff, hcalc.agrees_iff⟩

theorem calculate_lcm_and_needs_backwards_lcmed_exact_twelve :
    Calculable 12 3 10 24 ∧ CalculatesExactly 12 8 10 24 := by
  have hcalc : Calculable 12 3 10 24 := by
    constructor <;> decide
  have hquarter : ¬ QuarterMultiple 12 (2 ^ 3) := fun h => h.2.1 (by decide)
  have hother : ¬ OtherMultiple 12 (2 ^ 3) := fun h => h.2 (by decide)
  exact ⟨hcalc, (calculate_lcm_and_needs_backwards_lcmed_exact hcalc).1.mpr
    ⟨(absurd · hother), (absurd · hquarter)⟩⟩

/-- One object of 24 bytes behind a buffer aligned to 32: the distance is 48, no
    multiple of 96. -/
theorem quarter_remainder_lost :
    Calculable 24 5 0 24 ∧
      calculate_lcm_and_needs_backwards_lcmed 24 32 0 24 = some (96, 48) ∧
      ¬ CalculatesExactly 24 32 0 24 := by
  have hcalc : Calculable 24 5 0 24 := by
    constructor <;> decide
  have hneeds : calculate_lcm_and_needs_backwards_lcmed 24 32 0 24 = some (96, 48) := by
    decide
  refine ⟨hcalc, hneeds, ?_⟩
  rintro ⟨needs, hneeds', ⟨hdvd, -⟩, -⟩
  rw [hneeds] at hneeds'
  obtain ⟨-, rfl⟩ := Prod.mk.inj (Option.some.inj hneeds')
  exact absurd hdvd (by decide)

end interprocess.rbtree_best_fit
