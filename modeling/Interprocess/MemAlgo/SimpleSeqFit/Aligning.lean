import Interprocess.MemAlgo.SimpleSeqFit.Expanding

namespace interprocess.ipcdetail.simple_seq_fit_impl

open Memory Tiling LinkedList

variable {P : Traits} {h : Heap} {blocks L R : List Block} {stale : List Nat} {u w : Nat}

theorem ceil_units_mul {n : Nat} (hlt : n * P.Alignment < 2 ^ 64) :
    ceil_units P (n * P.Alignment) = n := by
  rw [ceil_units, get_rounded_size_mul P.Alignment_pos P.Alignment_dvd hlt,
    Nat.mul_div_cancel _ P.Alignment_pos]

theorem min_units_eq (P : Traits) (nbytes : Nat) :
    min_units P nbytes = user_buffer_ceil_units P nbytes + P.BlockCtrlUnits := by
  unfold min_units Traits.AllocatedCtrlUnits
  omega

theorem overaligned_units_eq (P : Traits) (nbytes alignment : Nat) :
    overaligned_units P nbytes alignment = user_buffer_ceil_units P nbytes +
      user_buffer_ceil_units P nbytes + P.BlockCtrlUnits +
        (alignment - P.Alignment) / P.Alignment := by
  simp only [overaligned_units, Traits.AllocatedCtrlUnits, Nat.sub_self, Nat.max_zero]

/-- The padded request does not overflow. -/
def RequestFits (P : Traits) (nbytes alignment : Nat) : Prop :=
  overaligned_units P nbytes alignment * P.Alignment < 2 ^ 64

theorem two_pow_of_aligned {alignment : Nat} (hpos : 0 < alignment) (hlt : alignment < 2 ^ 64)
    (hpow : alignment &&& size_sub alignment 1 = 0) : ∃ k, k < 64 ∧ alignment = 2 ^ k := by
  rw [size_sub_of_le hpos hlt] at hpow
  obtain ⟨k, rfl⟩ := (Nat.and_sub_one_eq_zero_iff_isPowerOfTwo (by omega)).mp hpow
  exact ⟨k, (Nat.pow_lt_pow_iff_right (by decide)).mp hlt, rfl⟩

/-- The aligned buffer leaves room for a block in front of it and stays within the
    padding. -/
theorem aligned_buffer_bounds {k buffer : Nat} (hk : k < 64) (hpad : P.Alignment < 2 ^ k)
    (hbuffer : P.Alignment ∣ buffer)
    (hlt : buffer + P.BlockCtrlBytes + 2 ^ k < 2 ^ 64 + P.Alignment) :
    P.Alignment ∣ aligned_buffer P buffer (2 ^ k) ∧
      buffer + P.BlockCtrlBytes ≤ aligned_buffer P buffer (2 ^ k) ∧
      aligned_buffer P buffer (2 ^ k) + P.Alignment ≤ buffer + P.BlockCtrlBytes + 2 ^ k := by
  have hbytes : P.Alignment ∣ P.BlockCtrlBytes := dvd_ct_rounded_size _ _
  have hpow : P.Alignment ∣ 2 ^ k :=
    Nat.pow_dvd_pow 2 (Nat.le_of_lt ((Nat.pow_lt_pow_iff_right (by decide)).mp hpad))
  obtain ⟨hmultiple, hge, hle⟩ := align_up_bounds hk hpow (Nat.dvd_add hbuffer hbytes) hlt
  exact ⟨Nat.dvd_trans hpow hmultiple, hge, hle⟩

theorem write_header_ctrl {m : Memory} {x n : Nat} (hx : 8 ∣ x) (hn : n < 2 ^ 64) :
    ctrl P (write_header P m x n) x = ⟨0, n⟩ := by
  rw [write_header, priv_mark_new_allocated_block, ctrl_set_next hx (Nat.dvd_zero 8) (by decide),
    ctrl_set_size hn]

theorem write_header_frame {m : Memory} {x n b : Nat} (hb : b < x ∨ x + 16 ≤ b) :
    write_header P m x n b = m b := by
  refine (P.store_ptr_frame (by omega)).trans ?_
  exact store_outside _ _ (by omega)

/-- An allocated block gets its header. -/
theorem Rep.refresh {f : Nat} (hrep : Rep P h (L ++ ⟨f, true⟩ :: R) stale)
    (hstale : ∀ y ∈ stale, y = stop P.Alignment (first_block P h) L) :
    Rep P { h with mem := write_header P h.mem (stop P.Alignment (first_block P h) L) f }
      (L ++ ⟨f, true⟩ :: R) [] := by
  obtain ⟨hx, _, _, hlength, hlt⟩ := hrep.tiles.mid_pointer
  have htiles := hrep.tiles
  rw [List.append_cons] at htiles
  have hex : Exchange P (root P h) (first_block P h) h.mem
      (write_header P h.mem (stop P.Alignment (first_block P h) L) f) L [⟨f, true⟩] [⟨f, true⟩] R
        [] := by
    refine Exchange.of_used htiles rfl rfl rfl ?_ ?_ ?_
    · intro b hb
      rw [List.mem_singleton.mp hb]
      exact hrep.tiles.sizes ⟨f, true⟩ (by simp)
    · intro x v hx _
      simp only [placed, List.mem_singleton, Prod.mk.injEq, Block.mk.injEq, and_true] at hx
      obtain ⟨rfl, rfl⟩ := hx
      exact write_header_ctrl (by assumption) hlt
    · intro b hb
      rw [stop_concat] at hb
      exact write_header_frame (by omega)
  have htiles' := htiles.exchange hex (by
    intro y hy
    right
    rw [stop_concat, hstale y hy]
    omega)
  rw [List.append_assoc, List.singleton_append] at htiles'
  exact ⟨Segment.of_tiles htiles' hrep.allocated hrep.this_aligned hrep.nonempty hrep.stop_eq, hrep.coalesced⟩

/-- The part in front of an aligned buffer is given back. -/
theorem deallocate_first {x f : Nat} (hrep : Rep P h blocks [x])
    (hx : (x, (⟨f, true⟩ : Block)) ∈ placed P.Alignment (first_block P h) blocks) :
    ∃ allocated mem blocks',
      priv_deallocate P { h with mem := write_header P h.mem x f } (priv_get_user_buffer P x) =
        some { h with m_allocated := allocated, mem := mem } ∧
      Rep P { h with m_allocated := allocated, mem := mem } blocks' [] ∧
      (useds P.Alignment (first_block P h) blocks).Perm
        (x :: useds P.Alignment (first_block P h) blocks') ∧
      Kept P.Alignment (first_block P h) x blocks blocks' := by
  obtain ⟨L, R, rfl, rfl⟩ := exists_of_mem_placed _ hx
  have hfresh := hrep.refresh fun y hy => List.mem_singleton.mp hy
  generalize write_header P h.mem (stop P.Alignment (first_block P h) L) f = mem₀ at *
  obtain ⟨allocated, mem, blocks, hanswer, hrep', hreleased⟩ :=
    priv_deallocate_spec hfresh List.not_mem_nil
  simp only [first_block_update] at hanswer
  exact ⟨allocated, mem, blocks, hanswer, hrep', hreleased.useds_perm,
    fun y v hy hne => (hreleased.kept y v hy hne).1⟩

theorem third_headers_ctrl {m : Memory} {second third second_units n : Nat} (hsecond : 8 ∣ second)
    (hthird : 8 ∣ third) (hapart : second + 16 ≤ third) (hlt : second_units < 2 ^ 64)
    (hle : n ≤ second_units) :
    ctrl P (third_headers P m second third second_units n) second = ⟨0, n⟩ ∧
      ctrl P (third_headers P m second third second_units n) third = ⟨0, second_units - n⟩ := by
  simp only [third_headers, priv_mark_new_allocated_block]
  rw [m_size_set_size (Nat.lt_of_le_of_lt hle hlt)]
  refine ⟨?_, ?_⟩
  · simp (disch := omega) only [ctrl_set_next, ctrl_set_next_of_apart, ctrl_set_size_of_apart,
      ctrl_set_size]
  · simp (disch := omega) only [ctrl_set_next, ctrl_set_next_of_apart, ctrl_set_size]

theorem third_headers_frame {m : Memory} {second third second_units n b : Nat}
    (hb : b < second ∨ second + 16 ≤ b) (hb' : b < third ∨ third + 16 ≤ b) :
    third_headers P m second third second_units n b = m b := by
  simp only [third_headers, priv_mark_new_allocated_block]
  refine (P.store_ptr_frame (by omega)).trans ?_
  refine (P.store_ptr_frame (by omega)).trans ?_
  refine (store_outside _ _ (by omega)).trans ?_
  refine (store_outside _ _ (by omega)).trans ?_
  exact P.store_ptr_frame (by omega)

/-- Allocated blocks replace an allocated block whose header is left as it was. -/
theorem Rep.cut {G : List Block} {mem : Memory} {f : Nat}
    (hrep : Rep P h (L ++ ⟨w, true⟩ :: R) [])
    (hunits : f + units G = w) (hf : P.BlockCtrlUnits ≤ f)
    (hG : ∀ b ∈ G, b.used = true ∧ P.BlockCtrlUnits ≤ b.units)
    (hctrl : ∀ x v, (x, (⟨v, true⟩ : Block)) ∈
      placed P.Alignment (stop P.Alignment (first_block P h) L + f * P.Alignment) G →
        ctrl P mem x = ⟨0, v⟩)
    (hframe : ∀ b, b < stop P.Alignment (first_block P h) L ∨
      stop P.Alignment (first_block P h) L + w * P.Alignment ≤ b → mem b = h.mem b) :
    Rep P { h with mem := mem } (L ++ ⟨f, true⟩ :: G ++ R)
      [stop P.Alignment (first_block P h) L] := by
  have hused : ∀ b ∈ G, b.used = true := fun b hb => (hG b hb).1
  have htiles := hrep.tiles
  rw [List.append_cons] at htiles
  have hex : Exchange P (root P h) (first_block P h) h.mem mem L [⟨w, true⟩] (⟨f, true⟩ :: G) R
      [stop P.Alignment (first_block P h) L] := by
    refine Exchange.of_used htiles rfl ?_ ?_ ?_ ?_ ?_
    · rw [frees_cons_used, frees_of_used _ hused]
    · rw [units_cons, units_cons, units_nil, hunits, Nat.add_zero]
    · intro b hb
      rcases List.mem_cons.mp hb with rfl | hb
      · exact hf
      · exact (hG b hb).2
    · intro x v hx hfresh
      rcases List.mem_cons.mp hx with hx | hx
      · cases hx
        exact absurd List.mem_cons_self hfresh
      · exact hctrl x v hx
    · intro b hb
      rw [stop_concat] at hb
      exact hframe b hb
  have htiles' := htiles.exchange hex fun y hy => nomatch hy
  refine ⟨Segment.of_tiles htiles' ?_ hrep.this_aligned hrep.nonempty ?_, ?_⟩
  · rw [hrep.allocated]
    simp only [usedUnits_append, usedUnits_cons, ↓reduceIte, usedUnits_of_used hused]
    congr 1
    omega
  · rw [← hrep.stop_eq]
    simp only [stop, units_append, units_cons]
    congr 2
    omega
  · rw [List.append_assoc, List.cons_append]
    exact coalesced_used hrep.coalesced.left (Coalesced.used_append hused hrep.coalesced.right.tail)

/-- The parts behind the first one are new addresses. -/
theorem useds_cut_perm {G : List Block} {f : Nat} (first : Nat) (L R : List Block)
    (hunits : f + units G = w) :
    (useds P.Alignment first (L ++ ⟨f, true⟩ :: G ++ R)).Perm
      (useds P.Alignment (stop P.Alignment first L + f * P.Alignment) G ++
        useds P.Alignment first (L ++ ⟨w, true⟩ :: R)) := by
  have hend : stop P.Alignment (stop P.Alignment first L + f * P.Alignment) G =
      stop P.Alignment first L + w * P.Alignment := by
    rw [stop, Nat.add_assoc, ← Nat.add_mul, hunits]
  rw [List.append_assoc, List.cons_append, useds_append, useds_append, useds_cons_used,
    useds_cons_used, useds_append, hend]
  refine List.Perm.trans ?_ (List.perm_append_comm_assoc _ _ _)
  exact List.Perm.append_left _ List.perm_middle.symm

section Cut

variable {f n k : Nat} (hrep : Rep P h (L ++ ⟨w, true⟩ :: R) []) (hf : P.BlockCtrlUnits ≤ f)
  (hn : P.BlockCtrlUnits ≤ n)

include hrep hf hn

/-- The rest of the block becomes the block of the aligned buffer. -/
theorem Rep.cut_second (hsum : f + n = w) :
    Rep P
      { h with
        mem := write_header P h.mem (stop P.Alignment (first_block P h) L + f * P.Alignment) n }
      (L ++ ⟨f, true⟩ :: [⟨n, true⟩] ++ R) [stop P.Alignment (first_block P h) L] := by
  obtain ⟨hx, _, _, _, hlt⟩ := hrep.tiles.mid_pointer
  have hge := P.BlockCtrlBytes_ge
  have hfbytes := bytes_ge hf
  have hnbytes := bytes_ge hn
  have hbytes : f * P.Alignment + n * P.Alignment = w * P.Alignment := by
    rw [← Nat.add_mul, hsum]
  have hsecond : 8 ∣ stop P.Alignment (first_block P h) L + f * P.Alignment :=
    (Nat.dvd_add_right hx).mpr (Nat.dvd_trans P.eight_dvd_Alignment (Nat.dvd_mul_left _ _))
  refine hrep.cut ?_ hf ?_ ?_ ?_
  · rw [units_cons, units_nil, Nat.add_zero, hsum]
  · intro b hb
    rw [List.mem_singleton.mp hb]
    exact ⟨rfl, hn⟩
  · intro x v hx
    simp only [placed, List.mem_singleton, Prod.mk.injEq, Block.mk.injEq, and_true] at hx
    obtain ⟨rfl, rfl⟩ := hx
    exact write_header_ctrl hsecond (by omega)
  · intro b hb
    exact write_header_frame (by omega)

/-- The block of the aligned buffer, and a block behind it. -/
theorem Rep.cut_third (hk : P.BlockCtrlUnits ≤ k) (hsum : f + (n + k) = w) :
    Rep P
      { h with
        mem := third_headers P h.mem (stop P.Alignment (first_block P h) L + f * P.Alignment)
          (stop P.Alignment (first_block P h) L + f * P.Alignment + n * P.Alignment) (n + k) n }
      (L ++ ⟨f, true⟩ :: [⟨n, true⟩, ⟨k, true⟩] ++ R) [stop P.Alignment (first_block P h) L] := by
  obtain ⟨hx, _, _, _, hlt⟩ := hrep.tiles.mid_pointer
  have hge := P.BlockCtrlBytes_ge
  have hfbytes := bytes_ge hf
  have hnbytes := bytes_ge hn
  have hkbytes := bytes_ge hk
  have hbytes : f * P.Alignment + (n * P.Alignment + k * P.Alignment) = w * P.Alignment := by
    rw [← Nat.add_mul, ← Nat.add_mul, hsum]
  have hsecond : 8 ∣ stop P.Alignment (first_block P h) L + f * P.Alignment :=
    (Nat.dvd_add_right hx).mpr (Nat.dvd_trans P.eight_dvd_Alignment (Nat.dvd_mul_left _ _))
  have hthird : 8 ∣ stop P.Alignment (first_block P h) L + f * P.Alignment + n * P.Alignment :=
    (Nat.dvd_add_right hsecond).mpr (Nat.dvd_trans P.eight_dvd_Alignment (Nat.dvd_mul_left _ _))
  obtain ⟨hctrl, hctrl'⟩ := third_headers_ctrl (P := P) (m := h.mem) hsecond hthird (by omega)
    (show n + k < 2 ^ 64 by omega) (Nat.le_add_right n k)
  rw [Nat.add_sub_cancel_left] at hctrl'
  refine hrep.cut ?_ hf ?_ ?_ ?_
  · rw [units_cons, units_cons, units_nil, Nat.add_zero, hsum]
  · intro b hb
    simp only [List.mem_cons, List.not_mem_nil, or_false] at hb
    rcases hb with rfl | rfl
    · exact ⟨rfl, hn⟩
    · exact ⟨rfl, hk⟩
  · intro x v hx
    simp only [placed, List.mem_cons, Prod.mk.injEq, Block.mk.injEq, List.not_mem_nil, or_false,
      and_true] at hx
    rcases hx with ⟨rfl, rfl⟩ | ⟨rfl, rfl⟩
    · exact hctrl
    · exact hctrl'
  · intro b hb
    exact third_headers_frame (by omega) (by omega)

end Cut

/-- The buffer gets its block, and the part behind it is given back when it can be
    a block. The block in front is left without a header. -/
theorem split_third_spec {f nbytes : Nat} (hrep : Rep P h (L ++ ⟨w, true⟩ :: R) [])
    (hf : P.BlockCtrlUnits ≤ f) (hw : f + min_units P nbytes ≤ w) :
    ∃ allocated mem blocks,
      split_third P h (stop P.Alignment (first_block P h) L + f * P.Alignment) (w - f) nbytes =
        some { h with m_allocated := allocated, mem := mem } ∧
      Rep P { h with m_allocated := allocated, mem := mem } blocks
        [stop P.Alignment (first_block P h) L] ∧
      (stop P.Alignment (first_block P h) L, (⟨f, true⟩ : Block)) ∈
        placed P.Alignment (first_block P h) blocks ∧
      (∃ v, min_units P nbytes ≤ v ∧ (stop P.Alignment (first_block P h) L + f * P.Alignment,
        (⟨v, true⟩ : Block)) ∈ placed P.Alignment (first_block P h) blocks) ∧
      Kept P.Alignment (first_block P h) (stop P.Alignment (first_block P h) L)
        (L ++ ⟨w, true⟩ :: R) blocks ∧
      (useds P.Alignment (first_block P h) blocks).Perm
        ((stop P.Alignment (first_block P h) L + f * P.Alignment) ::
          useds P.Alignment (first_block P h) (L ++ ⟨w, true⟩ :: R)) := by
  have hmin : P.BlockCtrlUnits ≤ min_units P nbytes := by
    rw [min_units_eq]
    exact Nat.le_add_left _ _
  have hfirst : ∀ G, (stop P.Alignment (first_block P h) L, (⟨f, true⟩ : Block)) ∈
      placed P.Alignment (first_block P h) (L ++ ⟨f, true⟩ :: G ++ R) := by
    intro G
    rw [placed_append, placed_append]
    exact List.mem_append_left _ (List.mem_append_right _ List.mem_cons_self)
  have hsecond : ∀ v G, (stop P.Alignment (first_block P h) L + f * P.Alignment,
      (⟨v, true⟩ : Block)) ∈
        placed P.Alignment (first_block P h) (L ++ ⟨f, true⟩ :: ⟨v, true⟩ :: G ++ R) := by
    intro v G
    rw [placed_append, placed_append]
    exact List.mem_append_left _ (List.mem_append_right _
      (List.mem_cons_of_mem _ List.mem_cons_self))
  have hkept : ∀ G, f + units G = w → Kept P.Alignment (first_block P h)
      (stop P.Alignment (first_block P h) L) (L ++ ⟨w, true⟩ :: R) (L ++ ⟨f, true⟩ :: G ++ R) :=
    fun G hunits => kept_exchange _ _ L R hunits
  unfold split_third
  split_ifs with hthird
  · obtain ⟨k, hk⟩ : ∃ k, w - f = min_units P nbytes + k := ⟨_, (Nat.add_sub_cancel' (by omega)).symm⟩
    have hcut := hrep.cut_third hf hmin (show P.BlockCtrlUnits ≤ k by omega) (by omega)
    simp only [hk]
    generalize third_headers P h.mem _ _ _ _ = mem₀ at *
    have hperm := useds_cut_perm (P := P)
      (G := [⟨min_units P nbytes, true⟩, ⟨k, true⟩]) (f := f) (w := w) (first_block P h) L R
      (by simp only [units_cons, units_nil]; omega)
    have hplaced := hfirst [⟨min_units P nbytes, true⟩, ⟨k, true⟩]
    have hplaced' := hsecond (min_units P nbytes) [⟨k, true⟩]
    have hkept' := hkept [⟨min_units P nbytes, true⟩, ⟨k, true⟩]
      (by simp only [units_cons, units_nil]; omega)
    have hassoc : L ++ ⟨f, true⟩ :: [⟨min_units P nbytes, true⟩, ⟨k, true⟩] ++ R =
        L ++ [⟨f, true⟩] ++ [⟨min_units P nbytes, true⟩] ++ ⟨k, true⟩ :: R := by
      simp
    rw [hassoc] at hcut hperm hplaced hplaced' hkept'
    have hstop : stop P.Alignment (first_block P h)
        (L ++ [⟨f, true⟩] ++ [⟨min_units P nbytes, true⟩]) =
          stop P.Alignment (first_block P h) L + f * P.Alignment +
            min_units P nbytes * P.Alignment := by
      rw [stop_concat, stop_concat]
    have hge := P.BlockCtrlBytes_ge
    have hfbytes := bytes_ge hf
    have hminbytes := bytes_ge hmin
    obtain ⟨allocated, mem, blocks, hanswer, hrep', hreleased⟩ := priv_deallocate_spec hcut (by
      simp only [first_block_update, hstop, List.mem_singleton]
      omega)
    simp only [first_block_update, hstop] at hanswer hreleased
    refine ⟨allocated, mem, blocks, hanswer, hrep', (hreleased.kept _ f hplaced (by omega)).1,
      ⟨_, Nat.le_refl _, (hreleased.kept _ _ hplaced' (by omega)).1⟩, ?_, ?_⟩
    · intro y v hy hne
      refine (hreleased.kept y v (hkept' y v hy hne) ?_).1
      have hv : 0 < v := hrep.units_pos ⟨v, true⟩ (mem_of_mem_placed _ hy)
      have hpos := P.BlockCtrlUnits_pos
      rw [Nat.add_assoc, ← Nat.add_mul]
      exact placed_ne_inside _ P.Alignment_pos (mem_placed_mid _ _ _ L R) hy hv hne
        (show f + min_units P nbytes < w by omega)
    · have hswap := hreleased.useds_perm.symm.trans hperm
      exact (hswap.trans (List.Perm.swap _ _ _)).cons_inv
  · have hcut := hrep.cut_second hf (show P.BlockCtrlUnits ≤ w - f by omega) (by omega)
    generalize write_header P h.mem _ _ = mem₀ at *
    refine ⟨_, _, _, rfl, hcut, hfirst _, ⟨w - f, by omega, hsecond _ []⟩, hkept _ ?_, ?_⟩
    · exact Nat.add_sub_cancel' (by omega)
    · exact useds_cut_perm _ L R (Nat.add_sub_cancel' (by omega))

/-- The end of a block aligned by luck is given back. -/
theorem split_aligned_spec (hrep : Rep P h (L ++ ⟨w, true⟩ :: R) []) {nbytes : Nat}
    (hw : min_units P nbytes ≤ w) :
    ∃ allocated mem blocks v,
      split_aligned P h (priv_get_user_buffer P (stop P.Alignment (first_block P h) L)) nbytes =
        some { h with m_allocated := allocated, mem := mem } ∧
      Rep P { h with m_allocated := allocated, mem := mem } blocks [] ∧ min_units P nbytes ≤ v ∧
      (stop P.Alignment (first_block P h) L, (⟨v, true⟩ : Block)) ∈
        placed P.Alignment (first_block P h) blocks ∧
      Kept P.Alignment (first_block P h) (stop P.Alignment (first_block P h) L)
        (L ++ ⟨w, true⟩ :: R) blocks ∧
      (useds P.Alignment (first_block P h) blocks).Perm
        (useds P.Alignment (first_block P h) (L ++ ⟨w, true⟩ :: R)) := by
  have hmin : P.BlockCtrlUnits ≤ min_units P nbytes := by
    rw [min_units_eq]
    exact Nat.le_add_left _ _
  have hsize : m_size h.mem (stop P.Alignment (first_block P h) L) = w :=
    congrArg block_ctrl.m_size (hrep.tiles.mid_used_ctrl List.not_mem_nil)
  simp only [split_aligned, priv_get_block_user_buffer, hsize]
  split_ifs with hroom
  · obtain ⟨allocated, mem, blocks, hanswer, hrep', hplaced, hrest⟩ :=
      split_and_deallocate hrep (fun _ => List.not_mem_nil) hmin hroom
    exact ⟨allocated, mem, blocks, _, hanswer, hrep', Nat.le_refl _, hplaced, hrest⟩
  · exact ⟨_, _, _, w, rfl, hrep, hw, mem_placed_mid _ _ _ L R, fun _ _ hy _ => hy,
      List.Perm.refl _⟩

/-- Where the aligned buffer of a padded block starts. -/
theorem aligned_units {k nbytes x : Nat} (hk : k < 64) (hpad : P.Alignment < 2 ^ k)
    (hx : P.Alignment ∣ x) (hlt : x + w * P.Alignment < 2 ^ 64)
    (hw : overaligned_units P nbytes (2 ^ k) + P.BlockCtrlUnits ≤ w) :
    ∃ f, aligned_buffer P (priv_get_user_buffer P x) (2 ^ k) =
        priv_get_user_buffer P (x + f * P.Alignment) ∧
      P.BlockCtrlUnits ≤ f ∧ f + min_units P nbytes ≤ w := by
  have hbytes : P.Alignment ∣ P.BlockCtrlBytes := dvd_ct_rounded_size _ _
  have hpow : P.Alignment ∣ 2 ^ k :=
    Nat.pow_dvd_pow 2 (Nat.le_of_lt ((Nat.pow_lt_pow_iff_right (by decide)).mp hpad))
  have hpadding : (2 ^ k - P.Alignment) / P.Alignment * P.Alignment = 2 ^ k - P.Alignment :=
    Nat.div_mul_cancel (Nat.dvd_sub hpow (Nat.dvd_refl _))
  have hunits := P.BlockCtrlUnits_mul
  have hneeded := overaligned_units_eq P nbytes (2 ^ k)
  have hwbytes : (P.BlockCtrlUnits + (2 ^ k - P.Alignment) / P.Alignment + P.BlockCtrlUnits) *
      P.Alignment ≤ w * P.Alignment := Nat.mul_le_mul_right _ (by omega)
  rw [Nat.add_mul, Nat.add_mul, hunits, hpadding] at hwbytes
  have hbuffer : P.Alignment ∣ priv_get_user_buffer P x := Nat.dvd_add hx hbytes
  have hbufferdef : priv_get_user_buffer P x = x + P.BlockCtrlBytes := rfl
  obtain ⟨hdvd, hge, hle⟩ := aligned_buffer_bounds hk hpad hbuffer (by omega)
  generalize aligned_buffer P (priv_get_user_buffer P x) (2 ^ k) = usr at *
  have hf : (usr - priv_get_user_buffer P x) / P.Alignment * P.Alignment =
      usr - priv_get_user_buffer P x := Nat.div_mul_cancel (Nat.dvd_sub hdvd hbuffer)
  refine ⟨(usr - priv_get_user_buffer P x) / P.Alignment, ?_, ?_, ?_⟩
  · change usr = x + _ + P.BlockCtrlBytes
    omega
  · refine Nat.le_of_mul_le_mul_right ?_ P.Alignment_pos
    omega
  · have hfle : (usr - priv_get_user_buffer P x) / P.Alignment ≤
        P.BlockCtrlUnits + (2 ^ k - P.Alignment) / P.Alignment := by
      refine Nat.le_of_mul_le_mul_right ?_ P.Alignment_pos
      rw [Nat.add_mul, hunits, hpadding]
      omega
    rw [min_units_eq]
    omega

theorem split_overaligned_eq {h₁ : Heap} {x f nbytes alignment : Nat}
    (haligned : aligned_buffer P (priv_get_user_buffer P x) alignment =
      priv_get_user_buffer P (x + f * P.Alignment))
    (hsize : m_size h.mem x = w) (hle : f ≤ w) (hlt : w < 2 ^ 64)
    (hthird : split_third P h (x + f * P.Alignment) (w - f) nbytes = some h₁) :
    split_overaligned P h (priv_get_user_buffer P x) nbytes alignment =
      priv_deallocate P { h₁ with mem := write_header P h₁.mem x f } (priv_get_user_buffer P x) := by
  have hunits : (x + f * P.Alignment - x) / P.Alignment = f := by
    rw [Nat.add_sub_cancel_left, Nat.mul_div_cancel _ P.Alignment_pos]
  simp only [split_overaligned, haligned, priv_get_block_user_buffer, hsize, hunits,
    size_sub_of_le hle hlt, hthird, Option.bind_eq_bind, Option.bind_some]

/-- The parts around the aligned buffer are given back. -/
theorem split_overaligned_spec {k nbytes : Nat} (hrep : Rep P h (L ++ ⟨w, true⟩ :: R) [])
    (hk : k < 64) (hpad : P.Alignment < 2 ^ k)
    (hw : overaligned_units P nbytes (2 ^ k) + P.BlockCtrlUnits ≤ w) :
    ∃ allocated mem blocks x v,
      split_overaligned P h (priv_get_user_buffer P (stop P.Alignment (first_block P h) L)) nbytes
          (2 ^ k) = some { h with m_allocated := allocated, mem := mem } ∧
      aligned_buffer P (priv_get_user_buffer P (stop P.Alignment (first_block P h) L)) (2 ^ k) =
        priv_get_user_buffer P x ∧
      Rep P { h with m_allocated := allocated, mem := mem } blocks [] ∧ min_units P nbytes ≤ v ∧
      (x, (⟨v, true⟩ : Block)) ∈ placed P.Alignment (first_block P h) blocks ∧
      Kept P.Alignment (first_block P h) (stop P.Alignment (first_block P h) L)
        (L ++ ⟨w, true⟩ :: R) blocks ∧
      (stop P.Alignment (first_block P h) L :: useds P.Alignment (first_block P h) blocks).Perm
        (x :: useds P.Alignment (first_block P h) (L ++ ⟨w, true⟩ :: R)) := by
  have hsize : m_size h.mem (stop P.Alignment (first_block P h) L) = w :=
    congrArg block_ctrl.m_size (hrep.tiles.mid_used_ctrl List.not_mem_nil)
  have hlt := hrep.tiles.mid_stop_lt
  have hx : P.Alignment ∣ stop P.Alignment (first_block P h) L :=
    (Nat.dvd_add_right hrep.tiles.first_aligned).mpr (Nat.dvd_mul_left _ _)
  obtain ⟨f, haligned, hf, hfw⟩ := aligned_units hk hpad hx hlt hw
  obtain ⟨allocated₁, mem₁, blocks₁, hthird, hrep₁, hfirst, ⟨v, hv, hsecond⟩, hkept₁,
    hperm₁⟩ := split_third_spec hrep hf hfw
  obtain ⟨allocated, mem, blocks, hanswer, hrep', hperm, hkept⟩ := deallocate_first hrep₁ hfirst
  refine ⟨allocated, mem, blocks, stop P.Alignment (first_block P h) L + f * P.Alignment, v, ?_,
    haligned, hrep', hv, ?_, hkept₁.trans _ hkept, hperm.symm.trans hperm₁⟩
  · refine (split_overaligned_eq haligned hsize (Nat.le_trans (Nat.le_add_right _ _) hfw) ?_
      hthird).trans hanswer
    exact hrep.tiles.mid_pointer.2.2.2.2
  · refine hkept _ v hsecond ?_
    have hge := P.BlockCtrlBytes_ge
    have hfbytes := bytes_ge hf
    omega

end interprocess.ipcdetail.simple_seq_fit_impl
