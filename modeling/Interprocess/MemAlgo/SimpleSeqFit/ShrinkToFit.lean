import Interprocess.MemAlgo.SimpleSeqFit.Resizing

namespace interprocess.ipcdetail.simple_seq_fit_impl

open Memory Tiling LinkedList

variable {P : Traits} {h : Heap} {blocks L R : List Block} {stale live : List Nat} {u w x n : Nat}

/-- The loop of `shrink_to_fit` goes to the last free block. -/
theorem find_last_eq {m : Memory} {root prev last fuel z : Nat} {zs : List Nat}
    (hpath : Path (m_next P m) last (zs ++ [z]) root) (hlow : ∀ x ∈ zs ++ [z], root < x)
    (hfuel : zs.length + 1 < fuel) :
    find_last P m root fuel prev last (m_next P m last) = some (zs.getLastD last, z) := by
  induction zs generalizing prev last fuel with
  | nil =>
    obtain ⟨fuel, rfl⟩ : ∃ k, fuel = k + 2 := ⟨fuel - 2, by simp only [List.length_nil] at hfuel; omega⟩
    obtain ⟨hlast, hz⟩ := hpath
    have hz' := hlow z (List.mem_singleton_self z)
    rw [hlast, find_last, if_pos (by omega), if_neg (by omega), hz, find_last, if_neg (by simp)]
    rfl
  | cons y zs ih =>
    obtain ⟨fuel, rfl⟩ : ∃ k, fuel = k + 1 := ⟨fuel - 1, by omega⟩
    rw [List.cons_append, path_cons] at hpath
    have hy := hlow y List.mem_cons_self
    rw [List.length_cons] at hfuel
    rw [hpath.1, find_last, if_pos (by omega), if_neg (by omega),
      ih hpath.2 (fun x hx => hlow x (List.mem_cons_of_mem y hx)) (by omega), List.getLastD_cons]

/-- A free block with only allocated blocks behind it. -/
theorem exists_last_free (hne : frees P.Alignment x blocks ≠ []) :
    ∃ L u R, blocks = L ++ ⟨u, false⟩ :: R ∧
      frees P.Alignment (stop P.Alignment x L + u * P.Alignment) R = [] ∧
      frees P.Alignment x blocks = frees P.Alignment x L ++ [stop P.Alignment x L] := by
  obtain ⟨zs, z, hfrees⟩ : ∃ zs z, frees P.Alignment x blocks = zs ++ [z] :=
    ⟨_, _, (List.dropLast_append_getLast hne).symm⟩
  obtain ⟨L, u, R, rfl, hL, hz⟩ := exists_of_frees_eq _ hfrees
  refine ⟨L, u, R, rfl, ?_, ?_⟩
  · rw [frees_append, frees_cons_free, hL, ← hz] at hfrees
    rw [← hz]
    exact (List.cons.inj (List.append_cancel_left hfrees)).2
  · rw [hfrees, hL, hz]

/-- The search of `shrink_to_fit` ends at the last free block. -/
theorem find_last_spec (hrep : Rep P h (L ++ ⟨u, false⟩ :: R) [])
    (hfrees : frees P.Alignment (first_block P h) (L ++ ⟨u, false⟩ :: R) =
      frees P.Alignment (first_block P h) L ++ [stop P.Alignment (first_block P h) L]) :
    find_last P h.mem (root P h) (h.m_size + 1) (root P h) (root P h)
        (m_next P h.mem (root P h)) =
      some (previous P (root P h) (first_block P h) L, stop P.Alignment (first_block P h) L) := by
  have hpath := hrep.tiles.path
  have hlength := hrep.frees_length_le
  rw [hfrees] at hpath hlength
  rw [List.length_append, List.length_singleton] at hlength
  refine find_last_eq hpath ?_ (Nat.lt_succ_of_le hlength)
  intro y hy
  rw [← hfrees] at hy
  exact (hrep.tiles.free_bounds hy).1

theorem shrink_to_fit_search (hne : m_next P h.mem (root P h) ≠ root P h) :
    shrink_to_fit P h =
      (find_last P h.mem (root P h) (h.m_size + 1) (root P h) (root P h)
        (m_next P h.mem (root P h))).bind fun found =>
      if found.2 + m_size h.mem found.2 * P.Alignment ≠ h.this + priv_block_end_offset P h then
        some h
      else if h.m_allocated = 0 then
        (priv_allocate_new P h 0 0).bind fun answer =>
          if answer.2.1 = 0 then some answer.1
          else cut_last P answer.1 found.1 (m_next P answer.1.mem (root P answer.1)) answer.2.1
      else cut_last P h found.1 found.2 0 := by
  unfold shrink_to_fit
  rw [if_neg hne]
  rfl

/-- `shrink_to_fit` behind its search. -/
theorem shrink_to_fit_eq (hrep : Rep P h (L ++ ⟨u, false⟩ :: R) [])
    (hfrees : frees P.Alignment (first_block P h) (L ++ ⟨u, false⟩ :: R) =
      frees P.Alignment (first_block P h) L ++ [stop P.Alignment (first_block P h) L]) :
    shrink_to_fit P h =
      if stop P.Alignment (first_block P h) L + u * P.Alignment ≠
          stop P.Alignment (first_block P h) (L ++ ⟨u, false⟩ :: R) then some h
      else if h.m_allocated = 0 then
        (priv_allocate_new P h 0 0).bind fun answer =>
          if answer.2.1 = 0 then some answer.1
          else cut_last P answer.1 (previous P (root P h) (first_block P h) L)
            (m_next P answer.1.mem (root P answer.1)) answer.2.1
      else cut_last P h (previous P (root P h) (first_block P h) L)
        (stop P.Alignment (first_block P h) L) 0 := by
  have hloop := find_last_spec hrep hfrees
  have hne : m_next P h.mem (root P h) ≠ root P h := by
    rw [hrep.tiles.path.next_eq]
    cases hcons : frees P.Alignment (first_block P h) (L ++ ⟨u, false⟩ :: R) with
    | nil => rw [hcons] at hfrees; simp at hfrees
    | cons y ys =>
      have hbound := hrep.tiles.free_bounds (hcons ▸ List.mem_cons_self)
      exact Nat.ne_of_gt hbound.1
  have hend : h.this + priv_block_end_offset P h =
      stop P.Alignment (first_block P h) (L ++ ⟨u, false⟩ :: R) := by
    rw [priv_block_end_offset_eq hrep.this_aligned, hrep.stop_eq]
  rw [shrink_to_fit_search hne, hloop, Option.bind_some]
  simp only [hend, hrep.tiles.mid_free_size]

/-- Without a free block at the end there is nothing to shrink. -/
theorem shrink_to_fit_used_end (hrep : Rep P h blocks [])
    (hlast : ∀ b ∈ blocks.getLast?, b.used = true) : shrink_to_fit P h = some h := by
  by_cases hnone : frees P.Alignment (first_block P h) blocks = []
  · have hnext : m_next P h.mem (root P h) = root P h := by
      rw [hrep.tiles.path.next_eq, hnone]
      rfl
    simp only [shrink_to_fit, if_pos hnext]
  · obtain ⟨L, u, R, rfl, hR, hfrees⟩ := exists_last_free hnone
    rw [shrink_to_fit_eq hrep hfrees, if_pos]
    cases R with
    | nil =>
      have hused := hlast ⟨u, false⟩ (by simp)
      cases hused
    | cons r R =>
      have hr : 16 ≤ r.units * P.Alignment := Nat.le_trans P.BlockCtrlBytes_ge
        (bytes_ge (hrep.tiles.sizes r (by simp)))
      have hle := le_stop P.Alignment
        (stop P.Alignment (first_block P h) L + u * P.Alignment + r.units * P.Alignment) R
      rw [List.append_cons, stop_append, stop_concat, stop_cons]
      omega

/-- The heap after the last free block left the segment. -/
theorem cut_last_spec (hrep : Rep P h (L ++ [⟨u, false⟩]) []) (hL : L ≠ []) (unique_block : Nat) :
    ∃ h', cut_last P h (previous P (root P h) (first_block P h) L)
        (stop P.Alignment (first_block P h) L) unique_block =
          (if unique_block ≠ 0 then priv_deallocate P h' unique_block else some h') ∧
      Rep P h' L [] ∧ Resized P h h' (L ++ [⟨u, false⟩]) L ∧ h'.m_size ≤ h.m_size := by
  have hsize := hrep.tiles.mid_free_size
  obtain ⟨hseg, htaken⟩ := hrep.toSegment.take (Exchange.take_all hrep.tiles) (fun _ => rfl) rfl
  obtain ⟨received, hanswer⟩ := priv_check_and_allocate_all (P := P) (n := u)
    (previous P (root P h) (first_block P h) L) _ 0 (Nat.le_of_eq hsize.symm) (by omega)
  have hctrl := hseg.tiles.mid_used_ctrl List.not_mem_nil
  have hsize' : m_size (take_all P h.mem (previous P (root P h) (first_block P h) L)
      (stop P.Alignment (first_block P h) L)) (stop P.Alignment (first_block P h) L) = u :=
    congrArg block_ctrl.m_size hctrl
  have hstop := hrep.stop_eq
  have hallocated := hrep.allocated
  rw [stop_concat] at hstop
  simp only [cut_last, hsize, hanswer, hsize']
  generalize take_all P h.mem (previous P (root P h) (first_block P h) L)
    (stop P.Alignment (first_block P h) L) = mem at *
  have hend : h.this + (h.m_size / P.Alignment - u) * P.Alignment / P.Alignment * P.Alignment =
      stop P.Alignment (first_block P h) L := by
    rw [Nat.mul_div_cancel _ P.Alignment_pos, Nat.sub_mul]
    have hfirst : h.this ≤ first_block P h := Nat.le_add_right _ _
    have hle := le_stop P.Alignment (first_block P h) L
    omega
  have htiles : Tiles P (root P h) (first_block P h) mem L [] := Tiles.pop hseg.tiles
  have hsum : h.m_allocated + u * P.Alignment - u * P.Alignment = h.m_allocated :=
    Nat.add_sub_cancel _ _
  refine ⟨_, rfl, ⟨Segment.of_tiles htiles ?_ hrep.this_aligned ?_ hend.symm,
    hrep.coalesced.left⟩, ⟨rfl, rfl, hsum, ?_, ?_⟩, ?_⟩
  · rw [hsum, hallocated, usedUnits_append, usedUnits_cons, usedUnits_nil]
    rfl
  · rw [hend]
    obtain ⟨b, L, rfl⟩ := List.exists_cons_of_ne_nil hL
    have hb : 16 ≤ b.units * P.Alignment := Nat.le_trans P.BlockCtrlBytes_ge
      (bytes_ge (hrep.tiles.sizes b (by simp)))
    have hle := le_stop P.Alignment (first_block P h + b.units * P.Alignment) L
    rw [stop_cons]
    omega
  · rw [useds_append, useds_cons_free, useds_nil, List.append_nil]
  · intro y v hy
    refine ⟨?_, (htaken.kept y v hy).2⟩
    rw [placed_append, List.mem_append] at hy
    rcases hy with hy | hy
    · exact hy
    · simp [placed] at hy
  · exact Nat.le_trans (Nat.mul_le_mul_right _ (Nat.sub_le _ _)) (Nat.div_mul_le_self _ _)

/-- The last block of the segment that is not an allocated one is free. -/
theorem shrink_to_fit_free_end (hrep : Rep P h (L ++ [⟨u, false⟩]) [])
    (hallocated : h.m_allocated ≠ 0) (hL : L ≠ []) :
    ∃ h', shrink_to_fit P h = some h' ∧ Rep P h' L [] ∧ Resized P h h' (L ++ [⟨u, false⟩]) L ∧
      h'.m_size ≤ h.m_size := by
  have hfrees : frees P.Alignment (first_block P h) (L ++ [⟨u, false⟩]) =
      frees P.Alignment (first_block P h) L ++ [stop P.Alignment (first_block P h) L] := by
    rw [frees_append, frees_cons_free, frees_nil]
  obtain ⟨h', hcut, hrest⟩ := cut_last_spec hrep hL 0
  refine ⟨h', ?_, hrest⟩
  rw [shrink_to_fit_eq hrep hfrees, if_neg (by rw [stop_concat, not_not]), if_neg hallocated, hcut,
    if_neg (not_not.mpr rfl)]

/-- Without allocated bytes the heap is one free block. -/
theorem Rep.one_free (hrep : Rep P h blocks []) (hallocated : h.m_allocated = 0) :
    ∃ u, blocks = [⟨u, false⟩] := by
  have hzero : usedUnits blocks = 0 := by
    have hmul := hrep.allocated.symm.trans hallocated
    exact (Nat.mul_eq_zero.mp hmul).resolve_right (Nat.ne_of_gt P.Alignment_pos)
  have hfree : ∀ b ∈ blocks, b.used = false := by
    intro b hb
    obtain ⟨L, R, rfl⟩ := List.append_of_mem hb
    have hpos := hrep.units_pos b hb
    rw [usedUnits_append, usedUnits_cons] at hzero
    cases hused : b.used with
    | false => rfl
    | true =>
      rw [hused, if_pos rfl] at hzero
      omega
  cases blocks with
  | nil =>
    have hnonempty := hrep.nonempty
    have hstop := hrep.stop_eq
    rw [stop_nil] at hstop
    omega
  | cons b rest =>
    obtain ⟨u, used⟩ := b
    have hused : used = false := hfree _ List.mem_cons_self
    subst hused
    cases rest with
    | nil => exact ⟨u, rfl⟩
    | cons c rest =>
      rcases (List.isChain_cons_cons.mp hrep.coalesced).1 with hused | hused
      · cases hused
      · rw [hfree c (by simp)] at hused
        cases hused

/-- A null link in `m_root` is followed. -/
theorem priv_deallocate_null (hroot : 0 < root P h) (hnext : m_next P h.mem (root P h) = 0)
    (hx : 0 < x) : priv_deallocate P h (priv_get_user_buffer P x) = none := by
  have hposition : find_position P h.mem (root P h) x (h.m_size + 1) (root P h)
      (m_next P h.mem (root P h)) = none := by
    rw [hnext, find_position, if_pos ⟨Nat.ne_of_lt hroot, hx⟩, if_pos rfl]
  simp only [priv_deallocate, if_neg (user_buffer_ne_zero P x), priv_get_block_user_buffer,
    hposition, Option.bind_eq_bind, Option.bind_none]

/-- Without a free block `shrink_to_fit` takes `m_root` for the last one. -/
theorem cut_last_root (hseg : Segment P h blocks []) (hx : 0 < x) :
    cut_last P h (root P h) (root P h) (priv_get_user_buffer P x) = none := by
  have hsize := hseg.tiles.root_size
  obtain ⟨received, hanswer⟩ := priv_check_and_allocate_all (P := P) (h := h) (n := 0) (root P h)
    (root P h) 0 (Nat.zero_le _) (by omega)
  simp only [cut_last, hsize, hanswer]
  rw [if_pos (user_buffer_ne_zero P x)]
  refine priv_deallocate_null hseg.tiles.root_pos ?_ hx
  exact congrArg block_ctrl.m_next
    (ctrl_set_next hseg.tiles.root_aligned (Nat.dvd_zero 8) (by decide))

section Empty

variable (hrep : Rep P h [⟨u, false⟩] [])

include hrep

/-- The temporary allocation takes the only free block, or its front. -/
theorem priv_allocate_new_empty {h' : Heap} {received : Nat}
    (hanswer : priv_check_and_allocate P h P.BlockCtrlUnits (root P h) (first_block P h) 0 =
      (h', priv_get_user_buffer P (first_block P h), received)) :
    priv_allocate_new P h 0 0 =
      some (h', priv_get_user_buffer P (first_block P h), received) := by
  have hnext : m_next P h.mem (root P h) = first_block P h := by
    rw [hrep.tiles.path.next_eq, frees_cons_free, List.headD_cons]
  have hbefore := hrep.tiles.root_before
  have hceil : ceil_units P 0 + P.BlockCtrlUnits = P.BlockCtrlUnits := by
    rw [← user_buffer_ceil_units_eq, user_buffer_ceil_units, if_pos (Nat.le_refl 0), Nat.zero_add]
  have hloop : first_fit P h (ceil_units P 0 + P.BlockCtrlUnits) (h.m_size + 1) (root P h)
      (m_next P h.mem (root P h)) ⟨0, 0, 0⟩ =
        some (h', priv_get_user_buffer P (first_block P h), received,
          Biggest.update h.mem (root P h) (first_block P h) ⟨0, 0, 0⟩) := by
    rw [hnext, hceil, first_fit, if_neg (by omega), if_neg (by omega)]
    simp only [hanswer]
    exact if_pos (user_buffer_ne_zero P _)
  rw [priv_allocate_new, if_neg (Nat.lt_irrefl 0)]
  exact sequential_fit_of_found hloop (user_buffer_ne_zero P _)

theorem shrink_to_fit_empty_eq (hallocated : h.m_allocated = 0) :
    shrink_to_fit P h = (priv_allocate_new P h 0 0).bind fun answer =>
      if answer.2.1 = 0 then some answer.1
      else cut_last P answer.1 (root P h) (m_next P answer.1.mem (root P answer.1)) answer.2.1 := by
  have hfrees : frees P.Alignment (first_block P h) ([] ++ [⟨u, false⟩]) =
      frees P.Alignment (first_block P h) [] ++ [stop P.Alignment (first_block P h) []] := by
    rw [frees_append, frees_cons_free, frees_nil, frees_nil]
  have heq := shrink_to_fit_eq (L := []) (R := []) hrep hfrees
  rw [if_neg (by rw [stop_concat, not_not]), if_pos hallocated] at heq
  exact heq

/-- On an empty heap whose block cannot be split the temporary allocation takes it,
    and `shrink_to_fit` follows a null link. -/
theorem shrink_to_fit_crash (hallocated : h.m_allocated = 0)
    (hu : u ≤ P.BlockCtrlUnits + P.BlockCtrlUnits) : shrink_to_fit P h = none := by
  have hunits : P.BlockCtrlUnits ≤ u := hrep.tiles.sizes ⟨u, false⟩ (by simp)
  have hsize : m_size h.mem (first_block P h) = u := by
    have hmid := Tiles.mid_free_size (L := []) (R := []) hrep.tiles
    rwa [stop_nil] at hmid
  obtain ⟨hseg, _⟩ := Segment.take (L := []) (R := []) hrep.toSegment
    (Exchange.take_all (L := []) (R := []) hrep.tiles) (fun _ => rfl) rfl
  simp only [stop_nil, previous, frees_nil, List.getLastD_nil, List.nil_append, List.append_nil]
    at hseg
  obtain ⟨received, hanswer⟩ := priv_check_and_allocate_all (P := P) (h := h)
    (n := P.BlockCtrlUnits) (root P h) (first_block P h) 0 (by omega) (by omega)
  have hbefore := hrep.tiles.root_before
  generalize take_all P h.mem (root P h) (first_block P h) = mem at *
  have hnext : m_next P mem (root P h) = root P h := hseg.tiles.path
  rw [shrink_to_fit_empty_eq hrep hallocated, priv_allocate_new_empty hrep hanswer,
    Option.bind_some, if_neg (user_buffer_ne_zero P _)]
  simp only [root_update, hnext]
  exact cut_last_root hseg (by omega)

/-- On an empty heap whose block can be split `shrink_to_fit` leaves the smallest
    block. -/
theorem shrink_to_fit_smallest (hallocated : h.m_allocated = 0)
    (hu : P.BlockCtrlUnits + P.BlockCtrlUnits < u) :
    ∃ h', shrink_to_fit P h = some h' ∧ Rep P h' [⟨P.BlockCtrlUnits, false⟩] [] ∧
      Resized P h h' [⟨u, false⟩] [⟨P.BlockCtrlUnits, false⟩] ∧ h'.m_size ≤ h.m_size := by
  have hsize : m_size h.mem (first_block P h) = u := by
    have hmid := Tiles.mid_free_size (L := []) (R := []) hrep.tiles
    rwa [stop_nil] at hmid
  obtain ⟨hseg, _⟩ := Segment.take (L := []) (R := []) hrep.toSegment
    (Exchange.take_part (L := []) (R := []) hrep.tiles (Nat.le_refl _) (Nat.le_of_lt hu))
      (fun _ => rfl) rfl
  simp only [stop_nil, previous, frees_nil, List.getLastD_nil, List.nil_append, List.append_nil]
    at hseg
  obtain ⟨received, hanswer⟩ := priv_check_and_allocate_part (P := P) (h := h)
    (n := P.BlockCtrlUnits) (root P h) (first_block P h) 0 (by omega)
  generalize take_part P h.mem P.BlockCtrlUnits (root P h) (first_block P h) = mem at *
  generalize h.m_allocated + m_size mem (first_block P h) * P.Alignment = allocated at *
  have hrep₁ : Rep P { h with m_allocated := allocated, mem := mem }
      ([⟨P.BlockCtrlUnits, true⟩] ++ [⟨u - P.BlockCtrlUnits, false⟩]) [] :=
    ⟨hseg, coalesced_used List.isChain_nil (List.isChain_singleton _)⟩
  have hnext : m_next P mem (root P h) =
      stop P.Alignment (first_block P h) [⟨P.BlockCtrlUnits, true⟩] := by
    have hpath := hrep₁.tiles.path.next_eq
    rwa [frees_append, frees_cons_used, frees_nil, List.nil_append, frees_cons_free,
      List.headD_cons] at hpath
  obtain ⟨h₂, hcut, hrep₂, hresized, hle⟩ := cut_last_spec hrep₁ (List.cons_ne_nil _ _)
    (priv_get_user_buffer P (first_block P h))
  obtain ⟨allocated', mem', blocks, hfree, hrep₃, hreleased⟩ :=
    priv_deallocate_spec (L := []) (R := []) hrep₂ List.not_mem_nil
  have hfirst : first_block P h₂ = first_block P h := hresized.first_block_eq
  rw [stop_nil, hfirst] at hfree
  simp only [root_update, first_block_update, previous, frees_cons_used, frees_nil,
    List.getLastD_nil] at hcut
  have hzero : usedUnits blocks = 0 := by
    have hused := hreleased.used_units
    simp only [List.nil_append, usedUnits_cons, usedUnits_nil, ↓reduceIte] at hused
    omega
  have hallocated' : allocated' = 0 := by
    have heq : allocated' = usedUnits blocks * P.Alignment := hrep₃.allocated
    rw [heq, hzero, Nat.zero_mul]
  obtain ⟨v, rfl⟩ := hrep₃.one_free hallocated'
  have hv : v = P.BlockCtrlUnits := by
    have hunits := hreleased.units_eq
    simpa only [List.nil_append, units_cons, units_nil, Nat.add_zero] using hunits
  rw [hv] at hrep₃
  refine ⟨_, ?_, hrep₃, ⟨hresized.this_eq, hresized.extra_eq, hallocated'.trans hallocated.symm,
    List.Perm.refl _, ?_⟩, hle⟩
  swap
  · intro y v hy
    simp [placed] at hy
  rw [shrink_to_fit_empty_eq hrep hallocated, priv_allocate_new_empty hrep hanswer,
    Option.bind_some, if_neg (user_buffer_ne_zero P _)]
  simp only [root_update, hnext]
  rw [hcut, if_pos (user_buffer_ne_zero P _)]
  exact hfree

end Empty

end interprocess.ipcdetail.simple_seq_fit_impl
