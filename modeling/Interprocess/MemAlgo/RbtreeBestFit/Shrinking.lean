import Interprocess.MemAlgo.RbtreeBestFit.Cutting
import Interprocess.MemAlgo.RbtreeBestFit.Exchanges
import Interprocess.MemAlgo.RbtreeBestFit.Expand
import Interprocess.MemAlgo.RbtreeBestFit.Units

namespace interprocess.rbtree_best_fit

open ipcdetail Memory Tiling

variable {P : Traits} {h : Heap} {first u v n : Nat} {d : Bool} {L R : List Block}

/-- The headers that `shrink` writes before it gives the second part back. -/
def shrink_headers (P : Traits) (m : Memory) (block units old_block_units : Nat) : Memory :=
  let m := set_size m block units
  let new_block := block + m_size m block * P.Alignment
  let m := set_size m new_block (old_block_units - m_size m block)
  let m := priv_mark_as_allocated_block P m block
  priv_mark_as_allocated_block P m new_block

/-- `shrink` cuts the buffer in two. -/
theorem Rep.shrink_headers_exchange (hrep : Rep P h first (L ++ [⟨u, true⟩] ++ R))
    (hv : P.BlockCtrlUnits ≤ v) (hvu : v + P.BlockCtrlUnits ≤ u) :
    m_size (set_size h.mem (stop P.Alignment first L) v) (stop P.Alignment first L) = v ∧
    Exchange P h { h with mem := shrink_headers P h.mem (stop P.Alignment first L) v u } first L
      [⟨u, true⟩] [⟨v, true⟩, ⟨u - v, true⟩] R ∧
    SameOn (shrink_headers P h.mem (stop P.Alignment first L) v u) h.mem
      (stop P.Alignment first L + P.AllocatedCtrlBytes)
      (stop P.Alignment first L + v * P.Alignment + UsableByPreviousChunk) := by
  obtain ⟨a, x, e, hcut⟩ := exists_cut first L hv hvu
  obtain ⟨hax, hae, hxe⟩ := hcut.ne
  have hlt : u < 2 ^ 62 := hrep.units_lt_of_mem (G := [⟨u, true⟩])
  have hge := P.BlockCtrlBytes_ge
  have hctrl := P.AllocatedCtrlBytes_ge
  have hfirst := hcut.first_bytes
  have hsecond := hcut.second_bytes
  have hx := hcut.mid
  have hS := hcut.spread
  rw [← hcut.front]
  have hX₁ := (hcut.editing hrep).executed.set_size hS mem_three_left (s := v) (by omega) (by omega)
  simp only [tri_left, update_tri_left] at hX₁
  have hsize : m_size (set_size h.mem a v) a = v := by
    rw [hX₁.size_eq mem_three_left, tri_left]
  have hX₂ := hX₁.set_size hS mem_three_mid (s := u - v) (by omega) (by omega)
  simp only [tri_mid hax, update_tri_mid hax] at hX₂
  have hX₃ := hX₂.mark_allocated hS mem_three_left mem_three_mid (by rw [tri_left, hx]) (by omega)
    (by omega)
  rw [marked_allocated_tri_left hax] at hX₃
  have hX₄ := hX₃.mark_allocated hS mem_three_mid mem_three_right
    (by rw [tri_mid hax, hcut.behind]) (by omega) (by omega)
  rw [marked_allocated_tri_mid hax hae hxe] at hX₄
  have hdef : shrink_headers P h.mem a v u = priv_mark_as_allocated_block P
      (priv_mark_as_allocated_block P (set_size (set_size h.mem a v) x (u - v)) a) x := by
    unfold shrink_headers
    simp only [hsize, ← hx]
  rw [hdef]
  refine ⟨hsize, hcut.exchange hrep hv hvu hX₄ rfl ⟨rfl, rfl, rfl⟩ rfl, ?_⟩
  intro b hlo hhi
  unfold UsableByPreviousChunk at hhi
  refine hX₄.frame b (by omega) (by omega) ?_
  intro y hy
  obtain ⟨w, hw, hbound⟩ := mem_outside hy
  have hbytes : P.BlockCtrlBytes ≤ w * P.Alignment :=
    bytes_ge (b := ⟨w, false⟩) (hrep.sizes _ (mem_of_mem_placed _ hw))
  have hstop := hcut.stop_eq
  have ha := hcut.front
  omega

/-- The units of the user that a shrink asks for. -/
def preferred_user_units (P : Traits) (preferred_size : Nat) : Nat :=
  ceil_units P (size_sub preferred_size UsableByPreviousChunk)

/-- The units that a buffer is cut to. -/
def shrunk_units (P : Traits) (preferred_size : Nat) : Nat :=
  P.AllocatedCtrlUnits +
    max (P.BlockCtrlUnits - P.AllocatedCtrlUnits) (preferred_user_units P preferred_size)

/-- When the end of a buffer of `u` units can be cut off. -/
def CutsOff (P : Traits) (u max_size preferred_size : Nat) : Prop :=
  let max_user_units := floor_units P (size_sub max_size UsableByPreviousChunk)
  preferred_user_units P preferred_size ≤ max_user_units ∧
    preferred_user_units P preferred_size < u - P.AllocatedCtrlUnits ∧
    shrunk_units P preferred_size ≤ max_user_units + P.AllocatedCtrlUnits ∧
    shrunk_units P preferred_size + P.BlockCtrlUnits ≤ u

/-- When a buffer of `u` units has the preferred size already. -/
def IsPreferred (P : Traits) (u max_size preferred_size : Nat) : Prop :=
  preferred_user_units P preferred_size ≤
      floor_units P (size_sub max_size UsableByPreviousChunk) ∧
    u - P.AllocatedCtrlUnits = preferred_user_units P preferred_size

instance (P : Traits) (u max_size preferred_size : Nat) :
    Decidable (CutsOff P u max_size preferred_size) :=
  inferInstanceAs (Decidable (_ ∧ _ ∧ _ ∧ _))

instance (P : Traits) (u max_size preferred_size : Nat) :
    Decidable (IsPreferred P u max_size preferred_size) :=
  inferInstanceAs (Decidable (_ ∧ _))

section Shrink

variable (hrep : Rep P h first (L ++ [⟨u, true⟩] ++ R)) {max_size preferred_size : Nat}

include hrep

/-- A shrink that is not possible leaves the heap and reports the size. -/
theorem Rep.shrink_fails (hcuts : ¬ CutsOff P u max_size preferred_size)
    (hpreferred : ¬ IsPreferred P u max_size preferred_size) :
    try_shrink P h (priv_get_user_buffer P (stop P.Alignment first L)) max_size preferred_size =
        (false, user_bytes P u) ∧
      shrink P h (priv_get_user_buffer P (stop P.Alignment first L)) max_size preferred_size =
        (h, false, user_bytes P u) := by
  have hsize := hrep.units_here
  have hu : P.BlockCtrlUnits ≤ u := hrep.sizes ⟨u, true⟩ (by simp)
  have hctrl := P.AllocatedCtrlUnits_le
  have htry : try_shrink P h (priv_get_user_buffer P (stop P.Alignment first L)) max_size
      preferred_size = (false, user_bytes P u) := by
    unfold CutsOff shrunk_units preferred_user_units at hcuts
    unfold IsPreferred preferred_user_units at hpreferred
    unfold try_shrink
    simp only [priv_get_block_user_buffer, hsize] at hcuts ⊢
    split_ifs <;> first | rfl | (exfalso; omega)
  refine ⟨htry, ?_⟩
  unfold shrink
  simp only [htry]
  rfl

/-- A buffer of the preferred size is left alone. -/
theorem Rep.shrink_keeps (hpreferred : IsPreferred P u max_size preferred_size) :
    try_shrink P h (priv_get_user_buffer P (stop P.Alignment first L)) max_size preferred_size =
        (true, user_bytes P u) ∧
      shrink P h (priv_get_user_buffer P (stop P.Alignment first L)) max_size preferred_size =
        (h, true, user_bytes P u) := by
  have hsize := hrep.units_here
  have htry : try_shrink P h (priv_get_user_buffer P (stop P.Alignment first L)) max_size
      preferred_size = (true, user_bytes P u) := by
    obtain ⟨hle, heq⟩ := hpreferred
    unfold preferred_user_units at hle heq
    unfold try_shrink
    simp only [priv_get_block_user_buffer, hsize]
    rw [if_neg (by omega), if_neg (by omega), if_pos heq]
  refine ⟨htry, ?_⟩
  unfold shrink
  simp only [htry, priv_get_block_user_buffer, hsize, Bool.not_true, Bool.false_eq_true, if_false]
  exact if_pos hpreferred.2

theorem Rep.try_shrink_cuts (hcuts : CutsOff P u max_size preferred_size) :
    try_shrink P h (priv_get_user_buffer P (stop P.Alignment first L)) max_size preferred_size =
      (true, user_bytes P (shrunk_units P preferred_size)) := by
  have hsize := hrep.units_here
  have hctrl := P.AllocatedCtrlUnits_le
  obtain ⟨hle, hlt, hmax, hsplit⟩ := hcuts
  have hunits : shrunk_units P preferred_size - P.AllocatedCtrlUnits =
      max (P.BlockCtrlUnits - P.AllocatedCtrlUnits)
        (ceil_units P (size_sub preferred_size UsableByPreviousChunk)) :=
    Nat.add_sub_cancel_left _ _
  have hge : P.AllocatedCtrlUnits ≤ shrunk_units P preferred_size := Nat.le_add_right _ _
  unfold preferred_user_units at hle hlt
  unfold try_shrink
  simp only [priv_get_block_user_buffer, hsize, ← hunits]
  rw [if_neg (by omega), if_neg (by omega), if_neg (by omega), if_neg (by omega), if_neg (by omega)]
  rfl

end Shrink

/-- A shrink cuts the end of the buffer off, and it joins the free block behind. -/
theorem Rep.shrink_cuts {max_size preferred_size : Nat}
    (hrep : Rep P h first (L ++ [⟨u, true⟩] ++ (free_if d n ++ R)))
    (hr : d = false → ∀ r ∈ R.head?, r.used = true) (hcuts : CutsOff P u max_size preferred_size) :
    ∃ h', shrink P h (priv_get_user_buffer P (stop P.Alignment first L)) max_size preferred_size =
        (h', true, user_bytes P (shrunk_units P preferred_size)) ∧
      Exchange P h h' first L ([⟨u, true⟩] ++ free_if d n)
        [⟨shrunk_units P preferred_size, true⟩,
          ⟨u - shrunk_units P preferred_size + (if d then n else 0), false⟩] R ∧
      SameOn h'.mem h.mem (stop P.Alignment first L + P.AllocatedCtrlBytes)
        (stop P.Alignment first L + shrunk_units P preferred_size * P.Alignment +
          UsableByPreviousChunk) := by
  have hctrl := P.AllocatedCtrlUnits_le
  have htry := hrep.try_shrink_cuts hcuts
  have hsize := hrep.units_here
  obtain ⟨hle, hlt, hmax, hsplit⟩ := hcuts
  obtain ⟨v, hvdef⟩ : ∃ v, v = shrunk_units P preferred_size := ⟨_, rfl⟩
  have hv : P.BlockCtrlUnits ≤ v := by
    rw [hvdef, shrunk_units]
    omega
  rw [← hvdef] at htry hsplit ⊢
  obtain ⟨hsizev, hex, hsame⟩ := hrep.shrink_headers_exchange hv hsplit
  have hunits : (user_bytes P v - UsableByPreviousChunk) / P.Alignment + P.AllocatedCtrlUnits = v := by
    rw [user_bytes, Nat.add_sub_cancel, Nat.mul_div_cancel _ P.Alignment_pos]
    omega
  obtain ⟨hdeallocated, hkept⟩ := hrep.deallocate_second hr hex
  refine ⟨_, ?_, hdeallocated, hkept.trans hsame⟩
  unfold shrink
  simp only [htry, priv_get_block_user_buffer, hsize, Bool.not_true, Bool.false_eq_true, if_false,
    hunits]
  rw [if_neg (by unfold preferred_user_units at hlt; omega)]
  unfold shrink_headers
  simp only [hsizev]

end interprocess.rbtree_best_fit
