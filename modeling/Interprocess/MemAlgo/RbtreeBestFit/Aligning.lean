import Interprocess.MemAlgo.RbtreeBestFit.BestFit
import Interprocess.MemAlgo.RbtreeBestFit.Cutting
import Interprocess.MemAlgo.RbtreeBestFit.Exchanges

namespace interprocess.rbtree_best_fit

open ipcdetail Memory Tiling

variable {P : Traits} {h : Heap} {first u v n f s : Nat} {d : Bool} {L R : List Block}

/-- A block in use of that size is made. -/
def write_block (P : Traits) (m : Memory) (block units : Nat) : Memory :=
  priv_mark_as_allocated_block P (set_size m block units) block

section WriteBlock

variable {m m' : Memory} {a b lo hi : Nat}

theorem m_size_write_block (hf : f < 2 ^ 62) :
    m_size (set_allocated (set_size m a f) a true) a = f := by
  have hmod := Nat.mod_lt f (Nat.two_pow_pos 62)
  unfold m_size set_allocated set_size
  rw [holder_set_holder, holder_set_holder hmod]
  · exact Nat.mod_eq_of_lt hf
  · rw [holder_set_holder hmod]
    exact hmod

theorem write_block_outside (hf : f < 2 ^ 62) (hb : b < a + 8 ∨ a + 16 ≤ b)
    (hnext : b < a + f * P.Alignment + 8 ∨ a + f * P.Alignment + 16 ≤ b) :
    write_block P m a f b = m b := by
  rw [← m_size_write_block (m := m) (a := a) hf] at hnext
  unfold write_block priv_mark_as_allocated_block
  exact (store_outside _ _ hnext).trans ((store_outside _ _ hb).trans (store_outside _ _ hb))

/-- It reads only what it writes. -/
theorem sameOn_write_block (hsame : SameOn m m' lo hi) (hf : f < 2 ^ 62) (hlo : lo ≤ a + 8)
    (hhi : a + f * P.Alignment + 16 ≤ hi) :
    SameOn (write_block P m a f) (write_block P m' a f) lo hi := by
  have hfirst : SameOn (set_size m a f) (set_size m' a f) lo hi := by
    unfold set_size set_holder
    rw [holder_congr (hsame.mono hlo (by omega))]
    exact hsame.store _ _ _
  have hsecond : SameOn (set_allocated (set_size m a f) a true)
      (set_allocated (set_size m' a f) a true) lo hi := by
    unfold set_allocated set_holder
    rw [holder_congr (hfirst.mono hlo (by omega))]
    exact hfirst.store _ _ _
  unfold write_block priv_mark_as_allocated_block
  simp only [m_size_write_block hf]
  unfold set_prev_allocated set_holder
  rw [holder_congr (hsecond.mono (by omega) (by omega))]
  exact hsecond.store _ _ _

end WriteBlock

/-- The units of the block of an aligned buffer. -/
def min_units (P : Traits) (nbytes : Nat) : Nat :=
  max (user_buffer_ceil_units P nbytes + P.AllocatedCtrlUnits) P.BlockCtrlUnits

/-- An aligned block gives its end back when that can be a block. -/
theorem Rep.split_aligned_exchange {nbytes : Nat}
    (hrep : Rep P h first (L ++ [⟨u, true⟩] ++ (free_if d n ++ R)))
    (hr : d = false → ∀ r ∈ R.head?, r.used = true)
    (hsplit : min_units P nbytes + P.BlockCtrlUnits ≤ u) :
    Exchange P h (split_aligned P h (priv_get_user_buffer P (stop P.Alignment first L)) nbytes) first L
      ([⟨u, true⟩] ++ free_if d n)
      [⟨min_units P nbytes, true⟩, ⟨u - min_units P nbytes + (if d then n else 0), false⟩] R := by
  have hv : P.BlockCtrlUnits ≤ min_units P nbytes := Nat.le_max_right _ _
  have hsize := hrep.units_here
  obtain ⟨a, x, e, hcut⟩ := exists_cut (u := u) first L hv hsplit
  obtain ⟨hax, hae, hxe⟩ := hcut.ne
  have hlt : u < 2 ^ 62 := hrep.units_lt_of_mem (G := [⟨u, true⟩])
  have hge := P.BlockCtrlBytes_ge
  have hfirst := hcut.first_bytes
  have hsecond := hcut.second_bytes
  have hx := hcut.mid
  have hS := hcut.spread
  have hX₁ := (hcut.editing hrep).executed.set_size hS mem_three_left (s := min_units P nbytes)
    (by omega) (by omega)
  simp only [tri_left, update_tri_left] at hX₁
  have hX₂ := hX₁.mark_allocated hS mem_three_left mem_three_mid (by rw [tri_left, hx]) (by omega)
    (by omega)
  rw [marked_allocated_tri_left hax] at hX₂
  have hX₃ := hX₂.set_size hS mem_three_mid (s := u - min_units P nbytes) (by omega) (by omega)
  simp only [tri_mid hax, update_tri_mid hax] at hX₃
  have hX₄ := hX₃.mark_allocated hS mem_three_mid mem_three_right
    (by rw [tri_mid hax, hcut.behind]) (by omega) (by omega)
  rw [marked_allocated_tri_mid hax hae hxe] at hX₄
  have hex := hcut.exchange hrep hv hsplit hX₄ rfl ⟨rfl, rfl, rfl⟩ rfl
  have hanswer := (hrep.deallocate_second hr hex).1
  rw [← hcut.front, ← hx] at hanswer
  rw [← hcut.front] at hsize ⊢
  unfold split_aligned
  simp only [priv_get_block_user_buffer, hsize, Nat.mul_comm P.Alignment]
  unfold min_units at hsplit hx hanswer
  rw [if_pos hsplit, ← hx]
  exact hanswer

theorem split_aligned_short {nbytes : Nat} (hrep : Rep P h first (L ++ [⟨u, true⟩] ++ R))
    (hshort : u < min_units P nbytes + P.BlockCtrlUnits) :
    split_aligned P h (priv_get_user_buffer P (stop P.Alignment first L)) nbytes = h := by
  have hsize := hrep.units_here
  unfold split_aligned
  simp only [priv_get_block_user_buffer, hsize]
  exact if_neg (Nat.not_le_of_lt hshort)

/-- The block in front of an aligned buffer is given back, and the buffer takes what
    is behind. -/
theorem Rep.split_second_exchange (hrep : Rep P h first (L ++ [⟨u, true⟩] ++ R))
    (hl : (last front L).used = true) (hf : P.BlockCtrlUnits ≤ f) (hfu : f + P.BlockCtrlUnits ≤ u)
    {m : Memory} (hm : m = write_block P (write_block P h.mem
      (stop P.Alignment first L + f * P.Alignment) (u - f)) (stop P.Alignment first L) f) :
    Exchange P h (priv_deallocate P { h with mem := m }
      (priv_get_user_buffer P (stop P.Alignment first L))) first L [⟨u, true⟩]
      [⟨f, false⟩, ⟨u - f, true⟩] R := by
  obtain ⟨a, x, e, hcut⟩ := exists_cut (u := u) first L hf hfu
  obtain ⟨hax, hae, hxe⟩ := hcut.ne
  have hlt : u < 2 ^ 62 := hrep.units_lt_of_mem (G := [⟨u, true⟩])
  have hge := P.BlockCtrlBytes_ge
  have hfirst := hcut.first_bytes
  have hsecond := hcut.second_bytes
  have hx := hcut.mid
  have hS := hcut.spread
  have hX₁ := (hcut.editing hrep).executed.set_size hS mem_three_mid (s := u - f) (by omega) (by omega)
  simp only [tri_mid hax, update_tri_mid hax] at hX₁
  have hX₂ := hX₁.mark_allocated hS mem_three_mid mem_three_right
    (by rw [tri_mid hax, hcut.behind]) (by omega) (by omega)
  rw [marked_allocated_tri_mid hax hae hxe] at hX₂
  have hX₃ := hX₂.set_size hS mem_three_left (s := f) (by omega) (by omega)
  simp only [tri_left, update_tri_left] at hX₃
  have hX₄ := hX₃.mark_allocated hS mem_three_left mem_three_mid (by rw [tri_left, hx]) (by omega)
    (by omega)
  rw [marked_allocated_tri_left hax] at hX₄
  have hex := hcut.exchange hrep hf hfu hX₄ rfl ⟨rfl, rfl, rfl⟩ rfl
  rw [← hcut.front, ← hx] at hm
  rw [hm]
  exact hrep.deallocate_front hl hex

/-- The headers behind an aligned buffer in a block that has room for a third one. -/
def third_headers (P : Traits) (m : Memory) (second third s t : Nat) : Memory :=
  let m := new_block_ctrl P m third
  let m := set_size m second s
  let m := set_size m third t
  priv_mark_as_allocated_block P (priv_mark_as_allocated_block P m second) third

/-- With the header in front they cut the block in three. -/
theorem Rep.third_headers_exchange {t : Nat} (hrep : Rep P h first (L ++ [⟨u, true⟩] ++ R))
    (hf : P.BlockCtrlUnits ≤ f) (hs : P.BlockCtrlUnits ≤ s) (ht : P.BlockCtrlUnits ≤ t)
    (hsum : f + s + t = u) {a x y : Nat} (ha : a = stop P.Alignment first L)
    (hx : x = a + f * P.Alignment) (hy : y = x + s * P.Alignment) :
    Exchange P h { h with mem := write_block P (third_headers P h.mem x y s t) a f } first L
      [⟨u, true⟩] [⟨f, true⟩, ⟨s, true⟩, ⟨t, true⟩] R := by
  obtain ⟨r, R', hR⟩ := exists_next R ⟨units (L ++ [⟨u, true⟩] ++ R), true⟩
  obtain ⟨hhead, hbehind, -⟩ := hrep.headers_here hR
  change HeaderAt _ (_ + u * P.Alignment) _ _ at hbehind
  have hge := P.BlockCtrlBytes_ge
  have hfbytes : P.BlockCtrlBytes ≤ f * P.Alignment := bytes_ge (b := ⟨f, true⟩) hf
  have hsbytes : P.BlockCtrlBytes ≤ s * P.Alignment := bytes_ge (b := ⟨s, true⟩) hs
  have htbytes : P.BlockCtrlBytes ≤ t * P.Alignment := bytes_ge (b := ⟨t, true⟩) ht
  have hlt : u < 2 ^ 62 := hrep.units_lt_of_mem (G := [⟨u, true⟩])
  obtain ⟨e, he⟩ : ∃ e, e = y + t * P.Alignment := ⟨_, rfl⟩
  have hau : a + u * P.Alignment = e := by
    rw [he, hy, hx, ← hsum, Nat.add_mul, Nat.add_mul, Nat.add_assoc, Nat.add_assoc, Nat.add_assoc]
  have hstop : e = stop P.Alignment first (L ++ [⟨u, true⟩]) := by
    rw [stop_append, ← ha, stop_cons, stop_nil, hau]
  have hax : a ≠ x := by omega
  have hay : a ≠ y := by omega
  have hae : a ≠ e := by omega
  have hxy : x ≠ y := by omega
  have hxe : x ≠ e := by omega
  have hye : y ≠ e := by omega
  rw [← ha] at hhead hbehind
  rw [hau] at hbehind
  have hS : Spread P (addresses a x y e) := spread_addresses (by omega) (by omega) (by omega)
  have hma : a ∈ addresses a x y e := by simp [addresses]
  have hmx : x ∈ addresses a x y e := by simp [addresses]
  have hmy : y ∈ addresses a x y e := by simp [addresses]
  have hme : e ∈ addresses a x y e := by simp [addresses]
  have hstart := hrep.editing (S := addresses a x y e) (k := a + 16) (l := a + 8) (by
    rw [← ha, ← hstop]
    rintro z (rfl | rfl | rfl | rfl) <;> omega) (fun _ _ z hz => absurd hz List.not_mem_nil)
    (fun z hz => absurd hz List.not_mem_nil)
  rw [← ha, ← hstop] at hstart
  have hX₁ := hstart.executed.new_block_ctrl hS hmy (by omega)
  have hX₂ := hX₁.set_size hS hmx (s := s) (by omega) (by omega)
  have hX₃ := hX₂.set_size hS hmy (s := t) (by omega) (by omega)
  have hX₄ := hX₃.mark_allocated hS hmx hmy (by simp [hxy, ← hy]) (by omega) (by omega)
  have hX₅ := hX₄.mark_allocated hS hmy hme (by simp [marked_allocated, hxy, hxy.symm, ← he])
    (by omega) (by omega)
  have hX₆ := hX₅.set_size hS hma (s := f) (by omega) (by omega)
  have hX₇ := hX₆.mark_allocated hS hma hmx (by simp [← hx]) (by omega) (by omega)
  have hnodes := hrep.nodes_perm
  subst ha
  rw [hstop] at hX₇ hstart
  refine (hstart.with_mem hX₇).exchange (by omega) (Nat.le_refl _) hR ?_ ?_ ?_ ?_ ?_ ?_ ?_ ?_ ?_
  · simp only [units_cons, units_nil]
    omega
  · intro b hb
    simp only [List.mem_cons, List.not_mem_nil, or_false] at hb
    rcases hb with rfl | rfl | rfl
    · exact hf
    · exact hs
    · exact ht
  · exact ⟨Or.inr rfl, Or.inl rfl, Or.inl rfl, trivial⟩
  · intro r hr
    rw [last_append, last_cons, last_cons, last_cons, last_nil]
    exact Or.inl rfl
  · rw [← hstop]
    simp only [List.cons_append, List.nil_append, linked_cons, ← hx, ← hy, ← he]
    refine ⟨?_, ?_, ?_, ?_, trivial⟩
    · refine ⟨?_, ?_, ?_, ?_⟩ <;> simp [marked_allocated, hax, hay, hae]
      · exact hhead.prev_allocated
      · exact hhead.prev_size
    · refine ⟨?_, ?_, ?_, ?_⟩ <;> simp [marked_allocated, hax.symm, hxy, hxe]
    · refine ⟨?_, ?_, ?_, ?_⟩ <;> simp [marked_allocated, hay.symm, hxy, hxy.symm, hye]
    · refine ⟨?_, ?_, ?_, ?_⟩ <;>
        simp [marked_allocated, hae, hae.symm, hxy, hxy.symm, hxe.symm, hye.symm]
      · exact hbehind.size
      · exact hbehind.allocated
  · intro z b hz
    rw [← hstop]
    simp only [List.cons_append, List.nil_append, placed, List.mem_cons, List.not_mem_nil, or_false,
      Prod.mk.injEq, ← hx, ← hy, ← he] at hz
    rcases hz with ⟨rfl, _⟩ | ⟨rfl, _⟩ | ⟨rfl, _⟩ | ⟨rfl, _⟩ <;> assumption
  · exact hnodes
  · refine hrep.sorted_rest (List.Sublist.refl _) (fun z hz => hnodes.mem_iff.mp hz)
      (hX₇.frame.widen (Nat.le_refl _) (by omega) (Nat.le_refl _) (Nat.le_refl _)) ?_
    rw [hX₇.size_eq (hstop ▸ hme), ← hstop]
    simp [marked_allocated, hae, hae.symm, hxy, hxy.symm, hxe.symm, hye.symm]
    rfl
  · simp only [usedUnits_cons, usedUnits_nil, if_true, Nat.add_zero]
    rw [← hsum, Nat.add_assoc]

/-- The blocks in front of an aligned buffer and behind it are given back. The one
    behind goes first, while the header in front is still that of the whole block. -/
theorem Rep.split_third_exchange {t : Nat}
    (hrep : Rep P h first (L ++ [⟨u, true⟩] ++ (free_if d n ++ R))) (hl : (last front L).used = true)
    (hr : d = false → ∀ r ∈ R.head?, r.used = true) (hf : P.BlockCtrlUnits ≤ f)
    (hs : P.BlockCtrlUnits ≤ s) (ht : P.BlockCtrlUnits ≤ t) (hsum : f + s + t = u) {a x y : Nat}
    (ha : a = stop P.Alignment first L) (hx : x = a + f * P.Alignment) (hy : y = x + s * P.Alignment)
    {m₁ m₃ : Memory} {h₂ : Heap} (hm₁ : m₁ = third_headers P h.mem x y s t)
    (hh₂ : h₂ = priv_deallocate P { h with mem := m₁ } (priv_get_user_buffer P y))
    (hm₃ : m₃ = write_block P h₂.mem a f) :
    Exchange P h (priv_deallocate P { h₂ with mem := m₃ } (priv_get_user_buffer P a)) first L
      ([⟨u, true⟩] ++ free_if d n)
      [⟨f, false⟩, ⟨s, true⟩, ⟨t + (if d then n else 0), false⟩] R := by
  have hge := P.BlockCtrlBytes_ge
  have hfbytes : P.BlockCtrlBytes ≤ f * P.Alignment := bytes_ge (b := ⟨f, true⟩) hf
  have hsbytes : P.BlockCtrlBytes ≤ s * P.Alignment := bytes_ge (b := ⟨s, true⟩) hs
  have hlt : u < 2 ^ 62 := hrep.units_lt_of_mem (G := [⟨u, true⟩])
  have hex := hrep.third_headers_exchange hf hs ht hsum ha hx hy
  rw [← hm₁] at hex
  obtain ⟨w, hw⟩ : ∃ w, w = x + 8 - a := ⟨_, rfl⟩
  have hover : overlay (a + 8) w (write_block P m₁ a f) m₁ = write_block P m₁ a f := by
    funext b
    by_cases hb : a + 8 ≤ b ∧ b < a + 8 + w
    · exact overlay_inside _ _ hb.1 hb.2
    · rw [overlay_outside _ _ (by omega), write_block_outside (by omega) (by omega) (by omega)]
  have hrep₁ : Rep P { { h with mem := m₁ } with
      mem := overlay (a + 8) w (write_block P m₁ a f) m₁ } first
        (L ++ [⟨f, true⟩, ⟨s, true⟩] ++ surrounded false d 0 t n ++ R) := by
    rw [hover]
    have hnew := hrep.exchange hex
    simpa [surrounded] using hnew
  have hstop : stop P.Alignment first (L ++ [⟨f, true⟩, ⟨s, true⟩]) = y := by
    rw [stop_append, ← ha, stop_cons, stop_cons, stop_nil, hy, hx]
  obtain ⟨hsame, hback⟩ := hrep₁.deallocate_exchange_overlay (by simp) hr (by omega) (by
    intro z hz
    have hout : z ∈ outside P first L [⟨u, true⟩] (free_if d n ++ R) :=
      hrep.nodes_perm.mem_iff.mp hz
    obtain ⟨v, hv, hbound⟩ := mem_outside hout
    have hvbytes : P.BlockCtrlBytes ≤ v * P.Alignment :=
      bytes_ge (b := ⟨v, false⟩) (hrep.sizes _ (mem_of_mem_placed _ hv))
    have hend : stop P.Alignment first (L ++ [⟨u, true⟩]) = a + u * P.Alignment := by
      rw [stop_append, ← ha, stop_cons, stop_nil]
    rw [hend, ← ha, ← hsum, Nat.add_mul, Nat.add_mul] at hbound
    omega)
  simp only [hstop, Bool.false_eq_true, if_false, Nat.zero_mul, Nat.add_zero, hover, ← hh₂]
    at hsame hback
  have hm₃' : m₃ = overlay (a + 8) w (write_block P m₁ a f) h₂.mem := by
    rw [hm₃]
    funext b
    by_cases hb : a + 8 ≤ b ∧ b < a + 8 + w
    · rw [overlay_inside _ _ hb.1 hb.2]
      exact sameOn_write_block hsame (by omega) (Nat.le_refl _) (by omega) b hb.1 hb.2
    · rw [overlay_outside _ _ (by omega), write_block_outside (by omega) (by omega) (by omega)]
  rw [← hm₃'] at hback
  have hunits : units (surrounded false d 0 t n) = t + if d then n else 0 := by
    rw [units_surrounded]
    simp
  rw [hunits] at hback
  have hfirst := (hex.widen_right hrep).trans (by simpa using hrep)
    (hback.widen_left (M := [⟨f, true⟩, ⟨s, true⟩]) (hover ▸ hrep₁))
  rw [ha]
  rw [← List.append_assoc, List.append_assoc L] at hrep
  exact hrep.deallocate_front hl hfirst

/-- What is left of a block of `u` units and the free block behind it when its first
    `f` units are given back, and what is more than `m` units of the rest if that can
    be a block. -/
def carved_blocks (P : Traits) (f u m n : Nat) (d : Bool) : List Block :=
  if m + P.BlockCtrlUnits ≤ u - f then
    [⟨f, false⟩, ⟨m, true⟩, ⟨u - f - m + (if d then n else 0), false⟩]
  else [⟨f, false⟩, ⟨u - f, true⟩] ++ free_if d n

theorem exists_carved_blocks {m : Nat} (hfit : f + m ≤ u) (n : Nat) (d : Bool) :
    ∃ d' s t, carved_blocks P f u m n d = surrounded true d' f s t ∧ m ≤ s := by
  unfold carved_blocks
  split
  · exact ⟨true, m, _, rfl, Nat.le_refl m⟩
  · exact ⟨d, u - f, n, rfl, by omega⟩

/-- The parts around an aligned buffer are given back. -/
theorem Rep.split_overaligned_exchange {nbytes alignment : Nat}
    (hrep : Rep P h first (L ++ [⟨u, true⟩] ++ (free_if d n ++ R))) (hl : (last front L).used = true)
    (hr : d = false → ∀ r ∈ R.head?, r.used = true) (hf : P.BlockCtrlUnits ≤ f)
    (hfit : f + min_units P nbytes ≤ u)
    (haligned : aligned_buffer P (priv_get_user_buffer P (stop P.Alignment first L)) alignment =
      priv_get_user_buffer P (stop P.Alignment first L + f * P.Alignment)) :
    Exchange P h (split_overaligned P h (priv_get_user_buffer P (stop P.Alignment first L)) nbytes
        alignment) first L ([⟨u, true⟩] ++ free_if d n)
      (carved_blocks P f u (min_units P nbytes) n d) R := by
  have hsize := hrep.units_here
  have hlt : u < 2 ^ 62 := hrep.units_lt_of_mem (G := [⟨u, true⟩])
  have hm : P.BlockCtrlUnits ≤ min_units P nbytes := Nat.le_max_right _ _
  have hf' : (stop P.Alignment first L + f * P.Alignment - stop P.Alignment first L) / P.Alignment %
      2 ^ 62 = f := by
    rw [Nat.add_sub_cancel_left, Nat.mul_div_cancel _ P.Alignment_pos, Nat.mod_eq_of_lt (by omega)]
  have hmax : max P.BlockCtrlUnits (user_buffer_ceil_units P nbytes + P.AllocatedCtrlUnits) =
      min_units P nbytes := Nat.max_comm _ _
  unfold split_overaligned carved_blocks
  simp only [haligned, priv_get_block_user_buffer, hsize, hf', hmax, Nat.mul_comm P.Alignment]
  by_cases hthird : min_units P nbytes + P.BlockCtrlUnits ≤ u - f
  · have hwritten : m_size (set_size (new_block_ctrl P h.mem (stop P.Alignment first L +
        f * P.Alignment + min_units P nbytes * P.Alignment))
          (stop P.Alignment first L + f * P.Alignment) (min_units P nbytes))
          (stop P.Alignment first L + f * P.Alignment) = min_units P nbytes := by
      have hmod := Nat.mod_lt (min_units P nbytes) (Nat.two_pow_pos 62)
      unfold m_size set_size
      rw [holder_set_holder hmod]
      exact Nat.mod_eq_of_lt (by omega)
    rw [if_pos hthird, if_pos hthird, hwritten]
    exact hrep.split_third_exchange hl hr hf hm (by omega) (by omega) rfl rfl rfl rfl rfl rfl
  · rw [if_neg hthird, if_neg hthird]
    have hex := hrep.split_second_exchange hl hf (by omega) rfl
    exact hex.widen_right hrep

theorem min_units_le (P : Traits) (nbytes alignment : Nat) :
    min_units P nbytes ≤ overaligned_units P nbytes alignment + P.AllocatedCtrlUnits := by
  unfold min_units overaligned_units
  generalize (alignment - P.Alignment) / P.Alignment = padding
  simp only
  omega

/-- The padded request does not overflow. -/
def RequestFits (P : Traits) (nbytes alignment : Nat) : Prop :=
  user_bytes P (overaligned_units P nbytes alignment + P.AllocatedCtrlUnits) < 2 ^ 64

/-- The first aligned buffer leaves room for a block in front of it and stays within
    the padding. -/
theorem aligned_units {k nbytes x : Nat} (hk : k < 64) (hpad : P.Alignment < 2 ^ k)
    (hx : P.Alignment ∣ x) (hlt : x + u * P.Alignment < 2 ^ 64)
    (hu : overaligned_units P nbytes (2 ^ k) + P.AllocatedCtrlUnits ≤ u) :
    ∃ f, aligned_buffer P (priv_get_user_buffer P x) (2 ^ k) =
        priv_get_user_buffer P (x + f * P.Alignment) ∧
      2 ^ k ∣ priv_get_user_buffer P (x + f * P.Alignment) ∧
      P.BlockCtrlUnits ≤ f ∧ f + min_units P nbytes ≤ u := by
  have hbytes : P.Alignment ∣ P.BlockCtrlBytes := dvd_ct_rounded_size _ _
  have hctrl : P.Alignment ∣ P.AllocatedCtrlBytes := dvd_ct_rounded_size _ _
  have hpow : P.Alignment ∣ 2 ^ k :=
    Nat.pow_dvd_pow 2 (Nat.le_of_lt ((Nat.pow_lt_pow_iff_right (by decide)).mp hpad))
  have hpadding : (2 ^ k - P.Alignment) / P.Alignment * P.Alignment = 2 ^ k - P.Alignment :=
    Nat.div_mul_cancel (Nat.dvd_sub hpow (Nat.dvd_refl _))
  have hunits := P.BlockCtrlUnits_mul
  have hctrlunits := P.AllocatedCtrlUnits_mul
  have hctrlle := P.AllocatedCtrlUnits_le
  unfold overaligned_units at hu
  simp only at hu
  have hubytes : (P.BlockCtrlUnits + (2 ^ k - P.Alignment) / P.Alignment + P.AllocatedCtrlUnits) *
      P.Alignment ≤ u * P.Alignment := Nat.mul_le_mul_right _ (by omega)
  rw [Nat.add_mul, Nat.add_mul, hunits, hpadding, hctrlunits] at hubytes
  have hbuffer : P.Alignment ∣ priv_get_user_buffer P x := Nat.dvd_add hx hctrl
  have hbufferdef : priv_get_user_buffer P x = x + P.AllocatedCtrlBytes := rfl
  obtain ⟨hdvd, hge, hle⟩ := align_up_bounds hk hpow (Nat.dvd_add hbuffer hbytes) (by omega)
  change 2 ^ k ∣ aligned_buffer P (priv_get_user_buffer P x) (2 ^ k) at hdvd
  change _ ≤ aligned_buffer P (priv_get_user_buffer P x) (2 ^ k) at hge
  change aligned_buffer P (priv_get_user_buffer P x) (2 ^ k) + _ ≤ _ at hle
  generalize aligned_buffer P (priv_get_user_buffer P x) (2 ^ k) = usr at *
  have hf : (usr - priv_get_user_buffer P x) / P.Alignment * P.Alignment =
      usr - priv_get_user_buffer P x :=
    Nat.div_mul_cancel (Nat.dvd_sub (Nat.dvd_trans hpow hdvd) hbuffer)
  have husr : usr = priv_get_user_buffer P
      (x + (usr - priv_get_user_buffer P x) / P.Alignment * P.Alignment) := by
    change usr = x + _ + P.AllocatedCtrlBytes
    omega
  refine ⟨(usr - priv_get_user_buffer P x) / P.Alignment, husr, husr ▸ hdvd, ?_, ?_⟩
  · refine Nat.le_of_mul_le_mul_right ?_ P.Alignment_pos
    omega
  · have hfle : (usr - priv_get_user_buffer P x) / P.Alignment ≤
        P.BlockCtrlUnits + (2 ^ k - P.Alignment) / P.Alignment := by
      refine Nat.le_of_mul_le_mul_right ?_ P.Alignment_pos
      rw [Nat.add_mul, hunits, hpadding]
      omega
    unfold min_units
    omega

theorem taken_blocks_eq (P : Traits) (n u : Nat) :
    taken_blocks P n u = [⟨taken_units P n u, true⟩] ++
      free_if (decide (n + P.BlockCtrlUnits ≤ u)) (u - n) := by
  unfold taken_blocks taken_units
  by_cases hsplit : n + P.BlockCtrlUnits ≤ u
  · rw [if_pos hsplit, if_pos hsplit, decide_eq_true hsplit]
    rfl
  · rw [if_neg hsplit, if_neg hsplit, decide_eq_false hsplit]
    rfl

/-- A buffer is carved out of a free block: its block has at least `m` units, and what
    is left in front of it and behind it is free. -/
def Carved (P : Traits) (h : Heap) (first : Nat) (blocks : List Block) (m : Nat) (h' : Heap)
    (p : Nat) : Prop :=
  ∃ L u R c d f s t, blocks = L ++ [⟨u, false⟩] ++ R ∧ m ≤ s ∧
    p = priv_get_user_buffer P (stop P.Alignment first L + (if c then f else 0) * P.Alignment) ∧
    Exchange P h h' first L [⟨u, false⟩] (surrounded c d f s t) R

/-- An overaligned request carves an aligned buffer out of a free block that holds the
    padded request, and fails when there is none. -/
theorem Rep.overaligned_spec {blocks : List Block} {k nbytes : Nat} (hrep : Rep P h first blocks)
    (hlt : stop P.Alignment first blocks < 2 ^ 64) (hk : k < 64) (hpad : P.Alignment < 2 ^ k)
    (hfits : RequestFits P nbytes (2 ^ k)) :
    (2 ^ k ∣ (priv_allocate_overaligned P h nbytes (2 ^ k)).2 ∧
      Carved P h first blocks (min_units P nbytes) (priv_allocate_overaligned P h nbytes (2 ^ k)).1
        (priv_allocate_overaligned P h nbytes (2 ^ k)).2) ∨
    ((∀ c w, FreeAt P first blocks c w →
        w < overaligned_units P nbytes (2 ^ k) + P.AllocatedCtrlUnits) ∧
      priv_allocate_overaligned P h nbytes (2 ^ k) = (h, 0)) := by
  obtain ⟨N, hN⟩ : ∃ N, N = overaligned_units P nbytes (2 ^ k) + P.AllocatedCtrlUnits := ⟨_, rfl⟩
  have hrequest : (overaligned_units P nbytes (2 ^ k) * P.Alignment + UsableByPreviousChunk) % 2 ^ 64 =
      user_bytes P N := by
    have hbytes : user_bytes P N =
        overaligned_units P nbytes (2 ^ k) * P.Alignment + UsableByPreviousChunk := by
      rw [hN, user_bytes, Nat.add_sub_cancel]
    rw [hbytes, Nat.mod_eq_of_lt]
    rw [← hbytes, hN]
    exact hfits
  have hNge : P.BlockCtrlUnits ≤ N :=
    Nat.le_trans (Nat.le_max_right _ _) (hN ▸ min_units_le P nbytes (2 ^ k))
  have htotal : priv_get_total_units P (user_bytes P N) = N :=
    priv_get_total_units_user_bytes hNge (hN ▸ hfits)
  rw [← hN]
  unfold priv_allocate_overaligned
  simp only [hrequest]
  rcases hrep.allocate_new_spec (user_bytes P N) with ⟨L, u, R, answer, hanswer, _, htaken⟩ |
    ⟨hsmall, hanswer⟩
  · rw [htotal] at htaken
    have hbuffer := htaken.buffer
    have hblocks := htaken.blocks_eq
    subst hblocks
    have hrep' := hrep.exchange htaken.exchange
    have hexchange := htaken.exchange
    rw [taken_blocks_eq] at hrep' hexchange
    obtain ⟨v, hv⟩ : ∃ v, v = taken_units P N u := ⟨_, rfl⟩
    obtain ⟨d, hd⟩ : ∃ d, d = decide (N + P.BlockCtrlUnits ≤ u) := ⟨_, rfl⟩
    rw [← hv, ← hd] at hrep' hexchange
    rw [List.append_assoc, List.append_assoc, ← List.append_assoc] at hrep'
    have hNv : N ≤ v := by
      have hle := htaken.units_le
      rw [hv, taken_units]
      split <;> omega
    have hr : d = false → ∀ r ∈ R.head?, r.used = true := fun _ => hrep.head_used
    have hmin : min_units P nbytes ≤ N := hN ▸ min_units_le P nbytes (2 ^ k)
    rw [hanswer, hbuffer, if_neg (priv_get_user_buffer_ne_zero _), Nat.and_two_pow_sub_one_eq_mod]
    by_cases haligned : priv_get_user_buffer P (stop P.Alignment first L) % 2 ^ k = 0
    · rw [if_pos haligned]
      refine Or.inl ⟨Nat.dvd_of_mod_eq_zero haligned, ?_⟩
      by_cases hsplit : min_units P nbytes + P.BlockCtrlUnits ≤ v
      · have hsecond := hrep'.split_aligned_exchange hr hsplit
        exact ⟨L, u, R, false, true, 0, min_units P nbytes, _, rfl, Nat.le_refl _, by simp,
          hexchange.trans hrep hsecond⟩
      · rw [split_aligned_short hrep' (Nat.lt_of_not_le hsplit)]
        exact ⟨L, u, R, false, d, 0, v, u - N, rfl, by omega, by simp, hexchange⟩
    · rw [if_neg haligned]
      have hx : P.Alignment ∣ stop P.Alignment first L :=
        Nat.dvd_add hrep.aligned (Nat.dvd_mul_left _ _)
      have hvlt : stop P.Alignment first L + v * P.Alignment < 2 ^ 64 := by
        have hle : v ≤ u := by
          have hle := htaken.units_le
          rw [hv, taken_units]
          split <;> omega
        have hmul : v * P.Alignment ≤ u * P.Alignment := Nat.mul_le_mul_right _ hle
        have hend := le_stop P.Alignment (stop P.Alignment first L + u * P.Alignment) R
        simp only [stop_append, stop_cons, stop_nil] at hlt
        omega
      obtain ⟨f, hbuf, hdvd, hf, hfit⟩ := aligned_units hk hpad hx hvlt (hN ▸ hNv)
      obtain ⟨d', s, t, hcarved, hs⟩ := exists_carved_blocks (P := P) hfit (u - N) d
      have hsecond := hrep'.split_overaligned_exchange hrep.last_used hr hf hfit hbuf
      rw [hcarved] at hsecond
      rw [hbuf]
      exact Or.inl ⟨hdvd, L, u, R, true, d', f, s, t, rfl, hs, rfl, hexchange.trans hrep hsecond⟩
  · rw [hanswer, if_pos rfl]
    rw [htotal] at hsmall
    exact Or.inr ⟨hsmall, rfl⟩

end interprocess.rbtree_best_fit
