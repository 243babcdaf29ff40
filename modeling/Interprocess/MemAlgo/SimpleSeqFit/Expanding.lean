import Interprocess.MemAlgo.SimpleSeqFit.Splitting

namespace interprocess.ipcdetail.simple_seq_fit_impl

open Memory Tiling LinkedList

variable {P : Traits} {h : Heap} {blocks L R : List Block} {stale : List Nat} {u r : Nat}

/-- The loop of `priv_expand` goes over the free blocks in front of the block. -/
theorem find_previous_eq {m : Memory} {target prev fuel : Nat} {xs : List Nat}
    (hpath : Path (m_next P m) prev xs target) (hxs : ∀ x ∈ xs, x ≠ 0 ∧ x ≠ target)
    (hfuel : xs.length < fuel) : find_previous P m target fuel prev = some (xs.getLastD prev) := by
  induction xs generalizing prev fuel with
  | nil =>
    cases fuel with
    | zero => cases hfuel
    | succ fuel =>
      rw [path_nil] at hpath
      rw [find_previous, if_neg (not_not.mpr hpath)]
      rfl
  | cons x xs ih =>
    cases fuel with
    | zero => cases hfuel
    | succ fuel =>
      rw [path_cons] at hpath
      obtain ⟨hne, htarget⟩ := hxs x List.mem_cons_self
      rw [find_previous, hpath.1, if_pos htarget, if_neg hne,
        ih hpath.2 (fun y hy => hxs y (List.mem_cons_of_mem x hy)) (Nat.lt_of_succ_lt_succ hfuel),
        List.getLastD_cons]

theorem merge_header_frame {m : Memory} {block next_block merged_size b : Nat}
    (hb : b < block ∨ block + 16 ≤ b) : merge_header P m block next_block merged_size b = m b := by
  unfold merge_header
  refine (store_outside _ _ (by omega)).trans ?_
  exact P.store_ptr_frame (by omega)

section Merge

variable {root first : Nat} {m : Memory}
  (htiles : Tiles P root first m (L ++ ⟨u, true⟩ :: ⟨r, false⟩ :: R) stale)

include htiles

theorem merge_stop_le : stop P.Alignment first L + (u + r) * P.Alignment ≤ 2 ^ 64 := by
  rw [List.append_cons] at htiles
  have hbound := htiles.mid_stop_lt
  rw [stop_concat] at hbound
  rw [Nat.add_mul, ← Nat.add_assoc]
  exact Nat.le_of_lt hbound

theorem merge_header_ctrl :
    ctrl P (merge_header P m (stop P.Alignment first L)
        (stop P.Alignment first L + u * P.Alignment) (u + r)) (stop P.Alignment first L) =
      ⟨following P root (stop P.Alignment first L + (u + r) * P.Alignment) R, u + r⟩ := by
  have hbound := merge_stop_le htiles
  obtain ⟨hx, _, hprev, _, _⟩ := htiles.mid_pointer
  have hbehind := htiles
  rw [List.append_cons] at hbehind
  have hnext := hbehind.next_free
  have hafter := hbehind.after_pointer
  rw [stop_concat, Nat.add_assoc, ← Nat.add_mul] at hnext hafter
  have hlt : u + r < 2 ^ 64 := by
    have hmul : u + r ≤ (u + r) * P.Alignment := Nat.le_mul_of_pos_right _ P.Alignment_pos
    omega
  rw [merge_header, hnext, ctrl_set_size hlt, ctrl_set_next hx hafter.1 hafter.2]

/-- The free blocks in front of the block lead to the block behind it. -/
theorem merge_header_previous {fuel : Nat} (hfuel : (frees P.Alignment first L).length < fuel) :
    find_previous P (merge_header P m (stop P.Alignment first L)
      (stop P.Alignment first L + u * P.Alignment) (u + r))
        (stop P.Alignment first L + u * P.Alignment) fuel root =
      some (previous P root first L) := by
  have hsizes : ∀ b ∈ L, P.BlockCtrlUnits ≤ b.units :=
    fun b hb => htiles.sizes b (List.mem_append_left _ hb)
  have hfree : ∀ x ∈ frees P.Alignment first L, root < x ∧ x + 16 ≤ stop P.Alignment first L := by
    intro x hx
    obtain ⟨v, hv⟩ := (mem_frees _).mp hx
    have hbound := mem_placed_bounds _ hv
    have hlength := length_ge hsizes hv
    have hbefore := htiles.root_before
    omega
  refine find_previous_eq ?_ ?_ hfuel
  · have hpath := htiles.path
    rw [frees_append, frees_cons_used, frees_cons_free, path_append] at hpath
    refine hpath.1.congr ?_
    intro y hy
    refine P.load_ptr_congr ?_
    intro b _ hb
    refine merge_header_frame (Or.inl ?_)
    rcases List.mem_cons.mp hy with rfl | hy
    · have hbefore := htiles.root_before
      have hle := le_stop P.Alignment first L
      omega
    · have := hfree y hy
      omega
  · intro x hx
    have := hfree x hx
    omega

/-- A block and the free block behind it become one free block. -/
theorem Exchange.merge :
    Exchange P root first m (set_next P (merge_header P m (stop P.Alignment first L)
        (stop P.Alignment first L + u * P.Alignment) (u + r)) (previous P root first L)
        (stop P.Alignment first L)) L [⟨u, true⟩, ⟨r, false⟩] [⟨u + r, false⟩] R stale := by
  obtain ⟨hx, _, hprev, hlength, _⟩ := htiles.mid_pointer
  have hctrl := merge_header_ctrl htiles
  have hprev8 := htiles.previous_pointer
  have hstop : stop P.Alignment first (L ++ [⟨u, true⟩, ⟨r, false⟩]) =
      stop P.Alignment first L + (u + r) * P.Alignment := by
    rw [stop_append, stop, units_cons, units_cons, units_nil, Nat.add_zero]
  have hblock : ctrl P (set_next P (merge_header P m (stop P.Alignment first L)
      (stop P.Alignment first L + u * P.Alignment) (u + r)) (previous P root first L)
      (stop P.Alignment first L)) (stop P.Alignment first L) = _ :=
    (ctrl_set_next_of_apart (Or.inr hprev)).trans hctrl
  refine ⟨?_, ?_, ?_, ?_, ?_, ?_⟩
  · simp only [units_cons, units_nil, Nat.add_zero]
  · intro b hb
    rw [List.mem_singleton.mp hb]
    exact Nat.le_trans (htiles.sizes ⟨u, true⟩ (by simp)) (Nat.le_add_right _ _)
  · rw [frees_cons_free, frees_nil, path_cons, path_nil, hstop]
    exact ⟨congrArg block_ctrl.m_next (ctrl_set_next hprev8 hx (by omega)),
      congrArg block_ctrl.m_next hblock⟩
  · intro x v hx
    simp only [placed, List.mem_singleton, Prod.mk.injEq, Block.mk.injEq, and_true] at hx
    obtain ⟨rfl, rfl⟩ := hx
    exact congrArg block_ctrl.m_size hblock
  · intro x v hx
    simp [placed] at hx
  · intro b hout hrange
    have hwide : u * P.Alignment ≤ (u + r) * P.Alignment :=
      Nat.mul_le_mul_right _ (Nat.le_add_right _ _)
    rw [hstop] at hrange
    refine (P.store_ptr_frame hout).trans (merge_header_frame ?_)
    omega

end Merge

/-- The merged block in the free list. -/
theorem Rep.merge (hrep : Rep P h (L ++ ⟨u, true⟩ :: ⟨r, false⟩ :: R) stale)
    (hfresh : stop P.Alignment (first_block P h) L ∉ stale) :
    Segment P { h with
        m_allocated := h.m_allocated -
          m_size h.mem (stop P.Alignment (first_block P h) L) * P.Alignment
        mem := set_next P (merge_header P h.mem (stop P.Alignment (first_block P h) L)
            (stop P.Alignment (first_block P h) L + u * P.Alignment) (u + r))
          (previous P (root P h) (first_block P h) L) (stop P.Alignment (first_block P h) L) }
      (L ++ ⟨u + r, false⟩ :: R) stale := by
  have hsize : m_size h.mem (stop P.Alignment (first_block P h) L) = u :=
    congrArg block_ctrl.m_size (hrep.tiles.mid_used_ctrl hfresh)
  have hcons : L ++ ⟨u, true⟩ :: ⟨r, false⟩ :: R = L ++ [⟨u, true⟩, ⟨r, false⟩] ++ R := by
    simp
  have hex := Exchange.merge hrep.tiles
  have htiles := hrep.tiles
  rw [hcons] at htiles
  have htiles' := htiles.exchange hex fun y hy => Or.inl hy
  rw [List.append_assoc, List.singleton_append] at htiles'
  refine Segment.of_tiles htiles' ?_ hrep.this_aligned hrep.nonempty ?_
  · rw [hrep.allocated, hsize, ← Nat.sub_mul]
    congr 1
    simp only [usedUnits_append, usedUnits_cons, ↓reduceIte, Bool.false_eq_true]
    omega
  · rw [← hrep.stop_eq]
    simp only [stop, units_append, units_cons]
    congr 2
    omega

/-- A merge takes the address of the block away. -/
theorem useds_merge_perm (first : Nat) (L R : List Block) :
    (useds P.Alignment first (L ++ ⟨u, true⟩ :: ⟨r, false⟩ :: R)).Perm
      (stop P.Alignment first L :: useds P.Alignment first (L ++ ⟨u + r, false⟩ :: R)) := by
  have hend : stop P.Alignment first L + u * P.Alignment + r * P.Alignment =
      stop P.Alignment first L + (u + r) * P.Alignment := by
    rw [Nat.add_assoc, ← Nat.add_mul]
  rw [useds_append, useds_append]
  simp only [useds_cons_used, useds_cons_free, hend]
  exact List.perm_middle

/-- A block grows into the free block behind it. -/
theorem expand_into_spec (hrep : Rep P h (L ++ ⟨u, true⟩ :: ⟨r, false⟩ :: R) stale)
    (hfresh : stop P.Alignment (first_block P h) L ∉ stale) (preferred_size : Nat) :
    ∃ allocated mem received blocks,
      expand_into P h (stop P.Alignment (first_block P h) L)
          (stop P.Alignment (first_block P h) L + u * P.Alignment) (u + r) preferred_size =
        some ({ h with m_allocated := allocated, mem := mem }, true, received) ∧
      Rep P { h with m_allocated := allocated, mem := mem } blocks stale ∧
      (useds P.Alignment (first_block P h) blocks).Perm
        (useds P.Alignment (first_block P h) (L ++ ⟨u, true⟩ :: ⟨r, false⟩ :: R)) := by
  have hseg := hrep.merge hfresh
  have hfuel : (frees P.Alignment (first_block P h) L).length < h.m_size + 1 := by
    have hle := hrep.frees_length_le
    rw [frees_append, List.length_append] at hle
    omega
  have hprevious := merge_header_previous hrep.tiles hfuel
  have hu := hrep.tiles.sizes ⟨u, true⟩ (by simp)
  have hn : P.BlockCtrlUnits ≤ min (preferred_size + P.BlockCtrlUnits) (u + r) :=
    Nat.le_min.mpr ⟨Nat.le_add_left _ _, Nat.le_trans hu (Nat.le_add_right _ _)⟩
  simp only [expand_into, hprevious, Option.map_some, expand_answer]
  generalize set_next P (merge_header P h.mem (stop P.Alignment (first_block P h) L)
    (stop P.Alignment (first_block P h) L + u * P.Alignment) (u + r))
      (previous P (root P h) (first_block P h) L) (stop P.Alignment (first_block P h) L) = mem₁ at *
  generalize h.m_allocated -
    m_size h.mem (stop P.Alignment (first_block P h) L) * P.Alignment = allocated₁ at *
  obtain ⟨allocated, mem, received, w, R', hanswer, _, hseg', htaken, hcoalesced⟩ :=
    priv_check_and_allocate_spec hseg hn (Nat.min_le_right _ _)
      (size_sub ((u + r) * P.Alignment % 2 ^ 64) P.BlockCtrlBytes)
  simp only [root_update, first_block_update] at hanswer
  refine ⟨allocated, mem, received, L ++ ⟨w, true⟩ :: R', ?_, ⟨hseg', ?_⟩, ?_⟩
  · rw [hanswer]
    exact congrArg some (Prod.ext rfl (Prod.ext (decide_eq_true (user_buffer_ne_zero P _)) rfl))
  · exact hcoalesced hrep.coalesced.left hrep.coalesced.right.tail.resize
  · exact htaken.useds_perm.trans (useds_merge_perm _ L R).symm

/-- The block behind is in the segment and free. -/
theorem priv_next_block_if_free_some {y : Nat} (hrep : Rep P h (L ++ ⟨u, true⟩ :: R) [])
    (hnext : priv_next_block_if_free P h (stop P.Alignment (first_block P h) L) = some y) :
    y = stop P.Alignment (first_block P h) L + u * P.Alignment ∧ ∃ r R', R = ⟨r, false⟩ :: R' := by
  have hsize : m_size h.mem (stop P.Alignment (first_block P h) L) = u :=
    congrArg block_ctrl.m_size (hrep.tiles.mid_used_ctrl List.not_mem_nil)
  have hbehind := hrep.tiles
  rw [List.append_cons] at hbehind
  simp only [priv_next_block_if_free, hsize] at hnext
  split_ifs at hnext with hend hused
  refine ⟨(Option.some.inj hnext).symm, ?_⟩
  cases R with
  | nil =>
    have hstop := hrep.stop_eq
    rw [stop_concat] at hstop
    rw [hstop, Nat.add_sub_cancel_left, Nat.mul_div_cancel _ P.Alignment_pos] at hend
    exact absurd (Nat.le_refl _) hend
  | cons b R =>
    obtain ⟨r, used⟩ := b
    cases used with
    | false => exact ⟨r, R, rfl⟩
    | true =>
      have hctrl := hbehind.mid_used_ctrl List.not_mem_nil
      rw [stop_concat] at hctrl
      exact absurd (congrArg block_ctrl.m_next hctrl) hused

/-- An expansion keeps the blocks, or grows the block at the cost of the free
    block behind it. -/
theorem priv_expand_spec (hrep : Rep P h (L ++ ⟨u, true⟩ :: R) []) (min_size preferred_size : Nat) :
    (∃ success received, priv_expand P h (priv_get_user_buffer P
      (stop P.Alignment (first_block P h) L)) min_size preferred_size =
        some (h, success, received)) ∨
    ∃ allocated mem received blocks,
      priv_expand P h (priv_get_user_buffer P (stop P.Alignment (first_block P h) L)) min_size
        preferred_size = some ({ h with m_allocated := allocated, mem := mem }, true, received) ∧
      Rep P { h with m_allocated := allocated, mem := mem } blocks [] ∧
      (useds P.Alignment (first_block P h) blocks).Perm
        (useds P.Alignment (first_block P h) (L ++ ⟨u, true⟩ :: R)) := by
  have hsize : m_size h.mem (stop P.Alignment (first_block P h) L) = u :=
    congrArg block_ctrl.m_size (hrep.tiles.mid_used_ctrl List.not_mem_nil)
  simp only [priv_expand, priv_get_block_user_buffer, hsize]
  split_ifs
  · exact Or.inl ⟨_, _, rfl⟩
  · exact Or.inl ⟨_, _, rfl⟩
  · exact Or.inl ⟨_, _, rfl⟩
  · cases hnext : priv_next_block_if_free P h (stop P.Alignment (first_block P h) L) with
    | none => exact Or.inl ⟨_, _, rfl⟩
    | some y =>
      obtain ⟨rfl, r, R', rfl⟩ := priv_next_block_if_free_some hrep hnext
      have hbehind := hrep.tiles
      rw [List.append_cons] at hbehind
      have hfree := hbehind.mid_free_size
      rw [stop_concat] at hfree
      simp only [hfree]
      split_ifs
      · exact Or.inl ⟨_, _, rfl⟩
      · exact Or.inr (expand_into_spec hrep List.not_mem_nil _)

end interprocess.ipcdetail.simple_seq_fit_impl
