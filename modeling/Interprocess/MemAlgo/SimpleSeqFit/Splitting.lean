import Interprocess.MemAlgo.SimpleSeqFit.Taking

namespace interprocess.ipcdetail.simple_seq_fit_impl

open Memory Tiling LinkedList

variable {P : Traits} {h : Heap} {blocks L R : List Block} {stale : List Nat} {u k : Nat}

/-- The headers of the two parts of a block. -/
theorem split_block_ctrl {m : Memory} {x : Nat} (hx : 8 ∣ x) (hk : 16 ≤ k * P.Alignment)
    (hlt : k < 2 ^ 64) (hsize : m_size m x < 2 ^ 64) :
    ctrl P (split_block P m x k) x = ⟨0, k⟩ ∧
      ctrl P (split_block P m x k) (x + k * P.Alignment) = ⟨0, m_size m x - k⟩ := by
  have hy : 8 ∣ x + k * P.Alignment :=
    (Nat.dvd_add_right hx).mpr (Nat.dvd_trans P.eight_dvd_Alignment (Nat.dvd_mul_left _ _))
  have hxy : x + 16 ≤ x + k * P.Alignment := by omega
  simp only [split_block, priv_mark_new_allocated_block]
  generalize x + k * P.Alignment = y at *
  refine ⟨?_, ?_⟩
  · simp (disch := omega) only [ctrl_set_next, ctrl_set_next_of_apart, ctrl_set_size_of_apart,
      ctrl_set_size]
  · simp (disch := omega) only [ctrl_set_next, ctrl_set_next_of_apart, ctrl_set_size]

theorem split_block_frame {m : Memory} {x b : Nat} (hk : k * P.Alignment + 16 ≤ u * P.Alignment)
    (hrange : b < x ∨ x + u * P.Alignment ≤ b) : split_block P m x k b = m b := by
  simp only [split_block, priv_mark_new_allocated_block]
  refine (P.store_ptr_frame (by omega)).trans ?_
  refine (P.store_ptr_frame (by omega)).trans ?_
  refine (store_outside _ _ (by omega)).trans ?_
  exact store_outside _ _ (by omega)

/-- An allocated block is split in two. -/
theorem Exchange.split {root first : Nat} {m : Memory}
    (htiles : Tiles P root first m (L ++ ⟨u, true⟩ :: R) stale)
    (hfresh : stop P.Alignment first L ∉ stale) (hk : P.BlockCtrlUnits ≤ k)
    (hu : k + P.BlockCtrlUnits ≤ u) :
    Exchange P root first m (split_block P m (stop P.Alignment first L) k) L [⟨u, true⟩]
      [⟨k, true⟩, ⟨u - k, true⟩] R stale := by
  obtain ⟨hx, _, _, _, hlt⟩ := htiles.mid_pointer
  obtain ⟨hfirst, hsecond⟩ := split_bounds hk hu
  have hsize : m_size m (stop P.Alignment first L) = u :=
    congrArg block_ctrl.m_size (htiles.mid_used_ctrl hfresh)
  obtain ⟨hctrl, hctrl'⟩ := split_block_ctrl hx hfirst (by omega) (hsize ▸ hlt)
  rw [hsize] at hctrl'
  rw [List.append_cons] at htiles
  refine Exchange.of_used htiles rfl rfl ?_ ?_ ?_ ?_
  · simp only [units_cons, units_nil]
    omega
  · intro b hb
    simp only [List.mem_cons, List.not_mem_nil, or_false] at hb
    rcases hb with rfl | rfl
    · exact hk
    · change P.BlockCtrlUnits ≤ u - k
      omega
  · intro x v hx _
    simp only [placed, List.mem_cons, Prod.mk.injEq, Block.mk.injEq, List.not_mem_nil, or_false,
      and_true] at hx
    rcases hx with ⟨rfl, rfl⟩ | ⟨rfl, rfl⟩
    · exact hctrl
    · exact hctrl'
  · intro b hrange
    rw [stop_concat] at hrange
    exact split_block_frame hsecond hrange

theorem Rep.split (hrep : Rep P h (L ++ ⟨u, true⟩ :: R) stale)
    (hfresh : stop P.Alignment (first_block P h) L ∉ stale) (hk : P.BlockCtrlUnits ≤ k)
    (hu : k + P.BlockCtrlUnits ≤ u) :
    Rep P { h with mem := split_block P h.mem (stop P.Alignment (first_block P h) L) k }
      (L ++ ⟨k, true⟩ :: ⟨u - k, true⟩ :: R) stale := by
  have hex := Exchange.split hrep.tiles hfresh hk hu
  have htiles := hrep.tiles
  rw [List.append_cons] at htiles
  have htiles' := htiles.exchange hex fun y hy => Or.inl hy
  rw [List.append_assoc, List.cons_append, List.singleton_append] at htiles'
  refine ⟨Segment.of_tiles htiles' ?_ hrep.this_aligned hrep.nonempty ?_, ?_⟩
  · rw [hrep.allocated]
    simp only [usedUnits_append, usedUnits_cons, ↓reduceIte]
    congr 1
    omega
  · rw [← hrep.stop_eq]
    simp only [stop, units_append, units_cons]
    congr 2
    omega
  · have hright := coalesced_used (w := u - k) List.isChain_nil hrep.coalesced.right.tail
    exact coalesced_used hrep.coalesced.left hright

/-- A split adds the address of the second part. -/
theorem useds_split_perm (first : Nat) (L R : List Block) (hu : k ≤ u) :
    (useds P.Alignment first (L ++ [⟨k, true⟩] ++ ⟨u - k, true⟩ :: R)).Perm
      ((stop P.Alignment first L + k * P.Alignment) ::
        useds P.Alignment first (L ++ ⟨u, true⟩ :: R)) := by
  have hend : stop P.Alignment first L + k * P.Alignment + (u - k) * P.Alignment =
      stop P.Alignment first L + u * P.Alignment := by
    rw [Nat.add_assoc, ← Nat.add_mul, Nat.add_sub_cancel' hu]
  rw [useds_append, useds_append, useds_append, stop_concat]
  simp only [useds_cons_used, useds_nil, hend, List.append_assoc, List.singleton_append]
  refine (List.Perm.append_left _ (List.Perm.swap _ _ _)).trans ?_
  exact List.perm_middle

/-- The second part of a split block is given back. -/
theorem split_and_deallocate (hrep : Rep P h (L ++ ⟨u, true⟩ :: R) stale)
    (hfresh : ∀ v, stop P.Alignment (first_block P h) L + v * P.Alignment ∉ stale)
    (hk : P.BlockCtrlUnits ≤ k) (hu : k + P.BlockCtrlUnits ≤ u) :
    ∃ allocated mem blocks,
      priv_deallocate P
          { h with mem := split_block P h.mem (stop P.Alignment (first_block P h) L) k }
          (priv_get_user_buffer P (stop P.Alignment (first_block P h) L + k * P.Alignment)) =
        some { h with m_allocated := allocated, mem := mem } ∧
      Rep P { h with m_allocated := allocated, mem := mem } blocks stale ∧
      (stop P.Alignment (first_block P h) L, (⟨k, true⟩ : Block)) ∈
        placed P.Alignment (first_block P h) blocks ∧
      Kept P.Alignment (first_block P h) (stop P.Alignment (first_block P h) L)
        (L ++ ⟨u, true⟩ :: R) blocks ∧
      (useds P.Alignment (first_block P h) blocks).Perm
        (useds P.Alignment (first_block P h) (L ++ ⟨u, true⟩ :: R)) := by
  have hsplit := hrep.split (by simpa using hfresh 0) hk hu
  rw [List.append_cons] at hsplit
  generalize split_block P h.mem (stop P.Alignment (first_block P h) L) k = mem₀ at *
  have hstop : stop P.Alignment (first_block P { h with mem := mem₀ }) (L ++ [⟨k, true⟩]) =
      stop P.Alignment (first_block P h) L + k * P.Alignment := stop_concat _ _ _
  obtain ⟨allocated, mem, blocks, hanswer, hrep', hreleased⟩ :=
    priv_deallocate_spec hsplit (by rw [hstop]; exact hfresh k)
  rw [hstop] at hanswer
  refine ⟨allocated, mem, blocks, hanswer, hrep', ?_, ?_, ?_⟩
  · refine (hreleased.kept _ k ?_ ?_).1
    · rw [placed_append, placed_append]
      exact List.mem_append_left _ (List.mem_append_right _ List.mem_cons_self)
    · have hlength := (split_bounds hk hu).1
      rw [hstop]
      omega
  · intro y v hy hne
    have hkept := kept_exchange (b := ⟨u, true⟩) (G := [⟨k, true⟩, ⟨u - k, true⟩]) P.Alignment
      (first_block P h) L R (by simp only [units_cons, units_nil]; omega) y v hy hne
    have hv : 0 < v := hrep.units_pos ⟨v, true⟩ (mem_of_mem_placed _ hy)
    have hpos := P.BlockCtrlUnits_pos
    refine (hreleased.kept y v ?_ ?_).1
    · rw [List.append_assoc, List.cons_append, List.cons_append, List.nil_append] at hkept
      rw [List.append_assoc, List.singleton_append]
      exact hkept
    · rw [hstop]
      exact placed_ne_inside _ P.Alignment_pos (mem_placed_mid _ _ _ L R) hy hv hne
        (show k < u by omega)
  · have hperm := hreleased.useds_perm
    rw [hstop] at hperm
    exact (hperm.symm.trans (useds_split_perm (first_block P h) L R (by omega))).cons_inv

/-- A shrink that is possible and has something to cut off leaves room for a block. -/
theorem try_shrink_true {ptr max_size preferred_size : Nat}
    (hsize : m_size h.mem (priv_get_block P ptr) = u)
    (htrue : (try_shrink P h ptr max_size preferred_size).1 = true)
    (hne : u - P.BlockCtrlUnits ≠ ceil_units P preferred_size) :
    try_shrink P h ptr max_size preferred_size =
        (true, ceil_units P preferred_size * P.Alignment) ∧
      ceil_units P preferred_size + P.BlockCtrlUnits ≤ u - P.BlockCtrlUnits := by
  have hshrunk : (if ceil_units P preferred_size ≤ 0 then 0 else ceil_units P preferred_size) =
      ceil_units P preferred_size := by
    split_ifs <;> omega
  simp only [try_shrink, hsize, Traits.AllocatedCtrlUnits, Nat.sub_self, hshrunk] at htrue ⊢
  split_ifs at htrue ⊢
  exact ⟨rfl, by omega⟩

/-- A shrink changes nothing, or cuts the block down to the preferred units. -/
theorem shrink_spec (hrep : Rep P h (L ++ ⟨u, true⟩ :: R) stale)
    (hfresh : ∀ v, stop P.Alignment (first_block P h) L + v * P.Alignment ∉ stale)
    (max_size preferred_size : Nat) :
    (∃ success received, shrink P h (priv_get_user_buffer P (stop P.Alignment (first_block P h) L))
        max_size preferred_size = some (h, success, received)) ∨
    ∃ allocated mem received blocks,
      shrink P h (priv_get_user_buffer P (stop P.Alignment (first_block P h) L)) max_size
        preferred_size = some ({ h with m_allocated := allocated, mem := mem }, true, received) ∧
      Rep P { h with m_allocated := allocated, mem := mem } blocks stale ∧
      (stop P.Alignment (first_block P h) L,
          (⟨ceil_units P preferred_size + P.BlockCtrlUnits, true⟩ : Block)) ∈
        placed P.Alignment (first_block P h) blocks ∧
      Kept P.Alignment (first_block P h) (stop P.Alignment (first_block P h) L)
        (L ++ ⟨u, true⟩ :: R) blocks ∧
      (useds P.Alignment (first_block P h) blocks).Perm
        (useds P.Alignment (first_block P h) (L ++ ⟨u, true⟩ :: R)) := by
  have hsize : m_size h.mem (stop P.Alignment (first_block P h) L) = u :=
    congrArg block_ctrl.m_size (hrep.tiles.mid_used_ctrl (by simpa using hfresh 0))
  have hu := hrep.tiles.sizes ⟨u, true⟩ (by simp)
  by_cases hanswer : (try_shrink P h (priv_get_user_buffer P
      (stop P.Alignment (first_block P h) L)) max_size preferred_size).1 = true ∧
      u - P.BlockCtrlUnits ≠ ceil_units P preferred_size
  · right
    obtain ⟨htrue, hne⟩ := hanswer
    have hblock : m_size h.mem (priv_get_block P (priv_get_user_buffer P
        (stop P.Alignment (first_block P h) L))) = u := by
      rw [priv_get_block_user_buffer, hsize]
    obtain ⟨htry, hroom⟩ := try_shrink_true hblock htrue hne
    obtain ⟨allocated, mem, blocks, hfree, hrest⟩ := split_and_deallocate hrep hfresh
      (Nat.le_add_left P.BlockCtrlUnits (ceil_units P preferred_size)) (by omega)
    refine ⟨allocated, mem, ceil_units P preferred_size * P.Alignment, blocks, ?_, hrest⟩
    have hdiv : ceil_units P preferred_size * P.Alignment / P.Alignment =
        ceil_units P preferred_size := Nat.mul_div_cancel _ P.Alignment_pos
    simp only [shrink, htry, priv_get_block_user_buffer, hsize, Traits.AllocatedCtrlUnits, hdiv, hne,
      Bool.not_true, Bool.false_eq_true, ↓reduceIte]
    exact congrArg (fun answer => answer.bind fun h' =>
      some (h', true, ceil_units P preferred_size * P.Alignment)) hfree
  · left
    unfold shrink
    simp only [priv_get_block_user_buffer, hsize, Traits.AllocatedCtrlUnits]
    generalize try_shrink P h (priv_get_user_buffer P (stop P.Alignment (first_block P h) L))
      max_size preferred_size = answer at *
    obtain ⟨success, received⟩ := answer
    cases success with
    | false => exact ⟨false, received, rfl⟩
    | true =>
      refine ⟨true, received, ?_⟩
      have heq : u - P.BlockCtrlUnits = ceil_units P preferred_size := by
        by_contra hne
        exact hanswer ⟨rfl, hne⟩
      simp only [heq, Bool.not_true, Bool.false_eq_true, ↓reduceIte]

end interprocess.ipcdetail.simple_seq_fit_impl
