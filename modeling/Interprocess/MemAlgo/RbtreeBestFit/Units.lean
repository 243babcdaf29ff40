import Interprocess.MemAlgo.RbtreeBestFit.Operations

namespace interprocess.rbtree_best_fit

open ipcdetail Memory

variable {P : Traits} {n u v : Nat}

theorem priv_get_block_user_buffer (b : Nat) : priv_get_block P (priv_get_user_buffer P b) = b :=
  Nat.add_sub_cancel _ _

theorem priv_get_user_buffer_ne_zero (b : Nat) : priv_get_user_buffer P b ≠ 0 := by
  have hge := P.AllocatedCtrlBytes_ge
  unfold priv_get_user_buffer
  omega

/-- The units for a size are the fewest that hold it. -/
theorem ceil_units_le_iff (hn : n + P.Alignment ≤ 2 ^ 64) :
    ceil_units P n ≤ u ↔ n ≤ u * P.Alignment :=
  rounded_units_le_iff P.Alignment_pos P.Alignment_dvd hn

/-- A size that does not wrap when it is rounded to units. -/
def Fits (P : Traits) (nbytes : Nat) : Prop :=
  nbytes < 2 ^ 64 ∧ nbytes + P.Alignment ≤ 2 ^ 64 + UsableByPreviousChunk

theorem Fits.mono {m : Nat} (hn : Fits P n) (hm : m ≤ n) : Fits P m :=
  ⟨Nat.lt_of_le_of_lt hm hn.1, Nat.le_trans (Nat.add_le_add_right hm _) hn.2⟩

theorem user_bytes_mono (huv : u ≤ v) : user_bytes P u ≤ user_bytes P v :=
  Nat.add_le_add_right (Nat.mul_le_mul_right _ (Nat.sub_le_sub_right huv _)) _

theorem user_bytes_lt (hu : P.AllocatedCtrlUnits ≤ u) (huv : u < v) :
    user_bytes P u < user_bytes P v :=
  Nat.add_lt_add_right (Nat.mul_lt_mul_of_pos_right (by omega) P.Alignment_pos) _

theorem user_bytes_ge (u : Nat) : UsableByPreviousChunk ≤ user_bytes P u :=
  Nat.le_add_left _ _

/-- The bytes of a buffer end in the word behind its block. -/
theorem user_bytes_add (hu : P.AllocatedCtrlUnits ≤ u) :
    P.AllocatedCtrlBytes + user_bytes P u = u * P.Alignment + UsableByPreviousChunk := by
  rw [user_bytes, ← Nat.add_assoc, ← P.AllocatedCtrlUnits_mul, ← Nat.add_mul,
    Nat.add_sub_cancel' hu]

/-- What fits in a buffer fits in the rounded units. -/
theorem user_units_le_iff (hn : Fits P n) (hpos : UsableByPreviousChunk ≤ n) :
    ceil_units P (n - UsableByPreviousChunk) ≤ u - P.AllocatedCtrlUnits ↔ n ≤ user_bytes P u := by
  have hle := hn.2
  rw [ceil_units_le_iff (by omega), user_bytes]
  omega

theorem priv_get_total_units_ge (P : Traits) (n : Nat) : P.BlockCtrlUnits ≤ priv_get_total_units P n :=
  Nat.le_max_right _ _

/-- A block has the units for a size when its buffer has the bytes. -/
theorem priv_get_total_units_le_iff (hn : Fits P n) (hu : P.BlockCtrlUnits ≤ u) :
    priv_get_total_units P n ≤ u ↔ n ≤ user_bytes P u := by
  have hctrl := P.AllocatedCtrlUnits_le
  have hge := user_bytes_ge (P := P) u
  have hA := P.Alignment_ge
  have hdvd := Nat.le_of_dvd (by decide) P.Alignment_dvd
  have hmax : Fits P (max n UsableByPreviousChunk) := by
    rcases Nat.le_total n UsableByPreviousChunk with hle | hle
    · rw [Nat.max_eq_right hle]
      refine ⟨by decide, ?_⟩
      unfold UsableByPreviousChunk
      omega
    · rw [Nat.max_eq_left hle]
      exact hn
  have hiff := user_units_le_iff (u := u) hmax (Nat.le_max_right _ _)
  unfold ceil_units at hiff
  unfold priv_get_total_units
  simp only
  omega

/-- The bytes of a buffer ask for the units of its block. -/
theorem priv_get_total_units_user_bytes (hu : P.BlockCtrlUnits ≤ u) (hlt : user_bytes P u < 2 ^ 64) :
    priv_get_total_units P (user_bytes P u) = u := by
  have hA := P.Alignment_dvd
  have hctrl := P.AllocatedCtrlUnits_le
  have hge := priv_get_total_units_ge P (user_bytes P u)
  have hfits : Fits P (user_bytes P u) := by
    refine ⟨hlt, ?_⟩
    unfold user_bytes at hlt ⊢
    obtain ⟨q, hq⟩ := hA
    have hmul : (u - P.AllocatedCtrlUnits + 1) * P.Alignment ≤ q * P.Alignment := by
      refine Nat.mul_le_mul_right _ ?_
      refine Nat.lt_of_mul_lt_mul_right (a := P.Alignment) ?_
      rw [Nat.mul_comm q, ← hq]
      omega
    rw [Nat.succ_mul, Nat.mul_comm q, ← hq] at hmul
    omega
  refine Nat.le_antisymm ((priv_get_total_units_le_iff hfits hu).mpr (Nat.le_refl _)) ?_
  have hle := (priv_get_total_units_le_iff hfits hge).mp (Nat.le_refl _)
  by_contra hless
  have hmore := user_bytes_lt (P := P) (Nat.le_trans hctrl hge) (Nat.lt_of_not_le hless)
  omega

end interprocess.rbtree_best_fit
