import Interprocess.MemAlgo.RbtreeBestFit.Grow

namespace interprocess.rbtree_best_fit

open ipcdetail Memory Tiling

section Resize

variable (P : Traits)

/-- The end of `shrink_to_fit`: the last block, which is free, becomes the end block. -/
def remove_last_block (h : Heap) (first_block last_block : Nat) : Heap :=
  let h := h.erase P last_block
  let shrunk_border_offset := last_block - h.this + P.EndCtrlBlockBytes
  let mem := set_size h.mem last_block ((last_block - first_block) / P.Alignment)
  let mem := set_prev_size mem first_block (m_size mem last_block)
  let mem := set_allocated mem last_block true
  { h with m_size := shrunk_border_offset % 2 ^ 62, mem }

/-- Gives the last block of the segment back if it is free. When all memory is free,
    a small block is allocated meanwhile to keep the first block. -/
def shrink_to_fit (h : Heap) : Heap :=
  let first_block := priv_first_block P h
  let old_end_block := priv_end_block P h
  if priv_next_block P h.mem first_block = old_end_block then
    let answer := priv_allocate P h ⟨true, false, false, false⟩ 0 0 0 1 P.Alignment
    let unique_buffer := answer.ret
    if unique_buffer = 0 then answer.heap
    else
      let last_block := priv_next_block P answer.heap.mem (priv_get_block P unique_buffer)
      priv_deallocate P (remove_last_block P answer.heap first_block last_block) unique_buffer
  else if m_prev_allocated h.mem old_end_block then h
  else remove_last_block P h first_block (priv_prev_block P h.mem old_end_block)

end Resize

variable {P : Traits} {h : Heap} {first n e : Nat} {L : List Block}

section RemoveLast

variable (hrep : Rep P h first (L ++ [⟨n, false⟩])) (he : e = stop P.Alignment first L)
  (hpos : P.BlockCtrlUnits ≤ units L)

include hrep he hpos

/-- The headers of the first block and of the new end block. -/
theorem Rep.remove_last_executed :
    Executed (two first e) first (first + 8) (e + 8) (e + 40) (frees P.Alignment first L) h.mem
      (remove_last_block P h first e).mem (duo first e
        { ctrl h.mem first with m_prev_size := units L }
        { ctrl h.mem e with m_size := units L, m_allocated := true }) := by
  have hge := P.BlockCtrlBytes_ge
  have hbytes : P.BlockCtrlBytes ≤ units L * P.Alignment := bytes_ge (b := ⟨_, true⟩) hpos
  have heq : e = first + units L * P.Alignment := he
  have hne : first ≠ e := by omega
  have hlt : units L < 2 ^ 62 := by
    have hunits := hrep.units_lt
    rw [units_append] at hunits
    omega
  have hS : Spread P (two first e) := spread_two (by omega)
  have hdistance : (e - first) / P.Alignment = units L := by
    rw [heq, Nat.add_sub_cancel_left, Nat.mul_div_cancel _ P.Alignment_pos]
  have hnodes : ∀ y ∈ h.m_imultiset, y ∈ frees P.Alignment first L ∨ y = e := by
    intro y hy
    have hmem := hrep.nodes.subset hy
    rw [frees_append, ← he] at hmem
    exact (List.mem_append.mp hmem).imp_right List.mem_singleton.mp
  have hclear : Clear (two first e) h.m_imultiset := by
    rintro x hx y hy
    rcases hnodes y hy with hin | rfl
    · obtain ⟨u, hu⟩ := (mem_frees _).mp hin
      obtain ⟨hlo, hhi⟩ := mem_placed_bounds _ hu
      have hubytes := bytes_ge (P := P) (b := ⟨u, false⟩) (hrep.sizes _
        (List.mem_append_left _ (mem_of_mem_placed _ hu)))
      change y + u * P.Alignment ≤ stop P.Alignment first L at hhi
      change P.BlockCtrlBytes ≤ u * P.Alignment at hubytes
      rw [← he] at hhi
      rcases hx with rfl | rfl
      · exact Or.inl hlo
      · exact Or.inr (by omega)
    · rcases hx with rfl | rfl
      · exact Or.inl (by omega)
      · exact Or.inl (Nat.le_refl _)
  have hX := (((Executed.refl (two first e) first (first + 8) (e + 8) (e + 40)
    (frees P.Alignment first L) h.mem).congr fun y hy => duo_of_mem hy).write_hooks (P := P) hclear
      fun y hy => (hnodes y hy).imp_right fun h => by omega).set_size hS mem_two_right (by omega) hlt
  simp only [duo_right hne, update_duo_right hne] at hX
  have hsize := hX.size_eq mem_two_right
  rw [duo_right hne] at hsize
  have hY := (hX.set_prev_size hS mem_two_left (by omega) (Nat.lt_trans hlt (by decide))
    ).set_allocated hS mem_two_right (by omega) true
  simp only [duo_left, update_duo_left, duo_right hne, update_duo_right hne] at hY
  unfold remove_last_block Heap.erase
  simp only [hdistance]
  change m_size (set_size (P.write_hooks h.mem h.m_imultiset) e (units L)) e = units L at hsize
  rw [hsize]
  exact hY

/-- The last block becomes the end block. -/
theorem Rep.remove_last_rep : Rep P (remove_last_block P h first e) first L := by
  have hX := hrep.remove_last_executed he hpos
  have hmultiset : (remove_last_block P h first e).m_imultiset = h.m_imultiset.erase e := rfl
  have hallocated : (remove_last_block P h first e).m_allocated = h.m_allocated := rfl
  generalize remove_last_block P h first e = h' at *
  have hge := P.BlockCtrlBytes_ge
  have hbytes : P.BlockCtrlBytes ≤ units L * P.Alignment := bytes_ge (b := ⟨_, true⟩) hpos
  have heq : e = first + units L * P.Alignment := he
  have hunits : units (L ++ [⟨n, false⟩]) = units L + n := by simp [units_append]
  have hfirst := hX.ctrl_eq first mem_two_left
  have hend := hX.ctrl_eq e mem_two_right
  rw [duo_left] at hfirst
  rw [duo_right (by omega)] at hend
  have hLrep : ∀ x b, (x, b) ∈ placed P.Alignment first L →
      P.BlockCtrlBytes ≤ b.units * P.Alignment ∧ x + b.units * P.Alignment ≤ e := by
    intro x b hx
    refine ⟨bytes_ge (hrep.sizes b (List.mem_append_left _ (mem_of_mem_placed _ hx))), ?_⟩
    rw [he]
    exact (mem_placed_bounds _ hx).2
  have hsame : ∀ x b, (x, b) ∈ placed P.Alignment first L → first + P.BlockCtrlBytes ≤ x →
      ctrl h'.mem x = ctrl h.mem x := by
    intro x b hx hlo
    refine ctrl_congr fun y hylo hyhi => ?_
    have hb := hLrep x b hx
    refine hX.frame y (by omega) (by omega) ?_
    intro k hk
    obtain ⟨u, hu⟩ := (mem_frees _).mp hk
    have hsize : P.BlockCtrlUnits ≤ u :=
      hrep.sizes ⟨u, false⟩ (List.mem_append_left _ (mem_of_mem_placed _ hu))
    have := clear_of_placed hsize hx hu
    omega
  have hlast := hrep.header_at
  rw [← he] at hlast
  have hheaders := hrep.headers
  rw [List.append_assoc, linked_append] at hheaders
  have hprev : (ctrl h.mem first).m_prev_allocated = true := by
    cases L with
    | nil =>
      rw [units_nil] at hpos
      exact absurd P.BlockCtrlUnits_pos (Nat.not_lt_of_le hpos)
    | cons b rest => exact hheaders.1.1.prev_allocated
  have hperm : (h.m_imultiset.erase e).Perm (frees P.Alignment first L) := by
    have hnodes := hrep.nodes
    have hone : frees P.Alignment e [⟨n, false⟩] = [e] := rfl
    rw [frees_append, ← he, hone] at hnodes
    have herase := perm_erase_middle hnodes
    rwa [List.append_nil] at herase
  refine ⟨?_, ?_, ?_, ?_, ?_, ?_, ?_, ?_, hrep.aligned, ?_⟩
  · rw [linked_append, ← he]
    refine ⟨?_, ⟨?_, ?_, ?_, ?_⟩, trivial⟩
    · exact headers_of_first (fun b hb => hrep.sizes b (List.mem_append_left _ hb)) hheaders.1
        (by rw [hfirst]) (by rw [hfirst]) (by rw [hfirst]; exact hprev) hsame
    · rw [hend]
    · rw [hend]
      exact hlast.prev_allocated
    · rw [hend]
    · rw [hend]
      exact hlast.prev_size
  · exact congrArg BlockCtrl.m_prev_size hfirst
  · exact fun b hb => hrep.sizes b (List.mem_append_left _ hb)
  · exact (linked_append.mp hrep.separated).1
  · rw [hmultiset]
    exact hperm
  · rw [hmultiset]
    refine pairwise_le_congr (hrep.sorted.sublist List.erase_sublist) ?_
    intro x hx
    obtain ⟨u, hu⟩ := (mem_frees _).mp (hperm.subset hx)
    change (ctrl h'.mem x).m_size = (ctrl h.mem x).m_size
    have hu' : (x, (⟨u, false⟩ : Block)) ∈ placed P.Alignment first (L ++ [⟨n, false⟩]) := by
      rw [placed_append]
      exact List.mem_append_left _ hu
    rcases hrep.placed_behind_first hu' with hxfirst | hbehind
    · rw [hxfirst, hfirst]
    · rw [hsame x _ hu hbehind]
  · rw [hallocated, hrep.allocated, usedUnits_append]
    rfl
  · have hlt := hrep.units_lt
    omega
  · have hle := hrep.stop_le
    rw [stop_append, stop_cons, stop_nil] at hle
    exact Nat.le_trans (Nat.le_add_right _ _) hle

theorem Rep.remove_last_kept {b u : Nat} (hlive : LiveAt P first L b u) :
    SameOn (remove_last_block P h first e).mem h.mem (b + P.AllocatedCtrlBytes)
      (b + u * P.Alignment + UsableByPreviousChunk) := by
  have hX := hrep.remove_last_executed he hpos
  have hctrl := P.AllocatedCtrlBytes_ge
  have hge := P.BlockCtrlBytes_ge
  obtain ⟨hlo, hhi⟩ := mem_placed_bounds _ hlive
  change b + u * P.Alignment ≤ _ at hhi
  rw [← he] at hhi
  intro y hylo hyhi
  unfold UsableByPreviousChunk at hyhi
  refine hX.frame y (by omega) (by omega) ?_
  intro k hk
  obtain ⟨v, hv⟩ := (mem_frees _).mp hk
  have hvbytes : P.BlockCtrlBytes ≤ v * P.Alignment :=
    bytes_ge (b := ⟨v, false⟩) (hrep.sizes _ (List.mem_append_left _ (mem_of_mem_placed _ hv)))
  rcases placed_apart _ hlive hv with ⟨_, hne⟩ | hapart | hapart
  · cases hne
  · change b + u * P.Alignment ≤ k at hapart
    omega
  · change k + v * P.Alignment ≤ b at hapart
    omega

/-- The last block goes out of the segment. -/
theorem Rep.remove_last_outcome (henclosed : Enclosed P h first (L ++ [⟨n, false⟩]))
    (hsmall : h.m_size < 2 ^ 62) :
    Outcome P h (remove_last_block P h first e) first (L ++ [⟨n, false⟩]) L [] [] ∧
      (remove_last_block P h first e).m_size ≤ h.m_size := by
  have hend := henclosed.end_le
  have hlow := henclosed.header_le
  have hfirst := henclosed.first_eq
  have heq : e = first + units L * P.Alignment := he
  have hstop : stop P.Alignment first (L ++ [⟨n, false⟩]) = e + n * P.Alignment := by
    rw [stop_append, ← he, stop_cons, stop_nil]
  have hbytes := P.EndCtrlBlockUnits_mul
  rw [hstop] at hend
  have hmod : (e - h.this + P.EndCtrlBlockBytes) % 2 ^ 62 = e - h.this + P.EndCtrlBlockBytes :=
    Nat.mod_eq_of_lt (by omega)
  have hsize : (remove_last_block P h first e).m_size = e - h.this + P.EndCtrlBlockBytes := hmod
  refine ⟨⟨hrep.remove_last_rep he hpos, ⟨hfirst, ?_, hlow, ?_, ?_, henclosed.this_pos, ?_⟩, ?_, ?_⟩, ?_⟩
  · have htotal : e - h.this + P.EndCtrlBlockBytes -
        priv_first_block_offset_from_this P h.this h.m_extra_hdr_bytes =
          (units L + P.EndCtrlBlockUnits) * P.Alignment := by
      unfold priv_first_block at hfirst
      rw [Nat.add_mul, hbytes]
      omega
    unfold priv_first_block at hfirst
    unfold priv_end_block
    rw [hsize]
    change _ = h.this + priv_first_block_offset_from_this P h.this h.m_extra_hdr_bytes +
      ((e - h.this + P.EndCtrlBlockBytes -
        priv_first_block_offset_from_this P h.this h.m_extra_hdr_bytes) / P.Alignment -
          P.EndCtrlBlockUnits) * P.Alignment
    rw [htotal, Nat.mul_div_cancel _ P.Alignment_pos, Nat.add_sub_cancel, ← hfirst]
    rfl
  · rw [hsize, ← he]
    change _ ≤ h.this + _
    omega
  · rw [hsize]
    change h.this + _ ≤ _
    have hle := henclosed.segment_le
    omega
  · exact Nat.lt_of_lt_of_le P.BlockCtrlUnits_pos hpos
  · rw [usedBlocks_append, usedBlocks_cons_free, usedBlocks_nil, List.append_nil]
  · intro b u hlive _
    refine hrep.remove_last_kept he hpos ?_
    unfold LiveAt at hlive
    rw [placed_append] at hlive
    rcases List.mem_append.mp hlive with hL | hlast
    · exact hL
    · cases List.mem_singleton.mp hlast
  · rw [hsize]
    omega

end RemoveLast

variable {blocks : List Block}

/-- The last block is in use, or there is one smallest free block. -/
def Shrunk (P : Traits) (blocks : List Block) : Prop :=
  blocks = [⟨P.BlockCtrlUnits, false⟩] ∨ (last front blocks).used = true

/-- When all memory is free, there is room for a block in front of the last one. -/
def ShrinkFits (P : Traits) (blocks : List Block) : Prop :=
  ∀ n, blocks = [⟨n, false⟩] → P.BlockCtrlUnits + P.BlockCtrlUnits ≤ n

theorem priv_get_total_units_zero (P : Traits) : priv_get_total_units P 0 = P.BlockCtrlUnits := by
  have hctrl := P.AllocatedCtrlUnits_le
  have hzero := get_rounded_size_mul (n := 0) P.Alignment_pos P.Alignment_dvd
    (by rw [Nat.zero_mul]; decide)
  rw [Nat.zero_mul] at hzero
  unfold priv_get_total_units
  simp only [UsableByPreviousChunk, Nat.max_eq_right (Nat.zero_le 8), Nat.sub_self, hzero,
    Nat.zero_div, Nat.zero_add, Nat.max_eq_right hctrl]

/-- The request of `shrink_to_fit` when there is one block. -/
theorem priv_allocate_unique (h : Heap) :
    priv_allocate P h ⟨true, false, false, false⟩ 0 0 0 1 P.Alignment =
      match best_fit P h 0 0 with
      | some answer => ⟨answer.1, answer.2.1, answer.2.2, 0⟩
      | none => ⟨h, 0, 0, 0⟩ := by
  unfold priv_allocate allocate_or_expand expand_minimum
  cases best_fit P h 0 0 <;>
    simp only [Nat.max_self, Nat.lt_irrefl, Bool.false_eq_true, ne_eq, not_true_eq_false, false_and,
      if_false, if_true]

/-- The block behind the first one. -/
theorem Rep.next_of_first {b : Block} {rest : List Block} (hrep : Rep P h first (b :: rest)) :
    priv_next_block P h.mem first = first + b.units * P.Alignment := by
  have hheaders := hrep.headers
  rw [List.cons_append, linked_cons] at hheaders
  have hsize : m_size h.mem first = b.units := hheaders.1.size
  rw [priv_next_block, hsize]

/-- The first block is the only one when the end block is behind it. -/
theorem Rep.unique_iff {b : Block} {rest : List Block} (hrep : Rep P h first (b :: rest)) :
    priv_next_block P h.mem first = stop P.Alignment first (b :: rest) ↔ rest = [] := by
  rw [hrep.next_of_first, stop_cons]
  constructor
  · intro heq
    cases rest with
    | nil => rfl
    | cons c rest =>
      have hc := bytes_ge (hrep.sizes c (by simp))
      have hge := P.BlockCtrlBytes_ge
      have hle := le_stop P.Alignment (first + b.units * P.Alignment + c.units * P.Alignment) rest
      rw [stop_cons] at heq
      omega
  · rintro rfl
    rw [stop_nil]

/-- Without a block in use the segment is one free block. -/
theorem Rep.blocks_of_unused (hrep : Rep P h first blocks) (hpos : 0 < units blocks)
    (hunused : usedBlocks P.Alignment first blocks = []) : blocks = [⟨units blocks, false⟩] := by
  obtain ⟨⟨u, used⟩, rest, rfl⟩ : ∃ b rest, blocks = b :: rest := by
    cases blocks with
    | nil => cases hpos
    | cons b rest => exact ⟨b, rest, rfl⟩
  cases used with
  | true =>
    rw [usedBlocks_cons_used] at hunused
    cases hunused
  | false =>
    cases rest with
    | nil => rw [units_cons, units_nil, Nat.add_zero]
    | cons c rest =>
      obtain ⟨v, used⟩ := c
      have hsep := hrep.separated.2.1
      cases used with
      | true =>
        rw [usedBlocks_cons_free, usedBlocks_cons_used] at hunused
        cases hunused
      | false => exact absurd hsep (by rintro (hfree | hfree) <;> cases hfree)

/-- A segment with one free block is cut behind the smallest block. -/
theorem Rep.shrink_unique (hrep : Rep P h first [⟨n, false⟩])
    (henclosed : Enclosed P h first [⟨n, false⟩]) (hsmall : h.m_size < 2 ^ 62)
    (hfits : P.BlockCtrlUnits + P.BlockCtrlUnits ≤ n) :
    Outcome P h (shrink_to_fit P h) first [⟨n, false⟩] [⟨P.BlockCtrlUnits, false⟩] [] [] ∧
      (shrink_to_fit P h).m_size ≤ h.m_size := by
  have hpos := P.BlockCtrlUnits_pos
  have hunits := priv_get_total_units_zero P
  have hfree : FreeAt P first [⟨n, false⟩] first n := List.mem_cons_self
  have hcond : priv_next_block P h.mem (priv_first_block P h) = priv_end_block P h := by
    rw [← henclosed.first_eq, ← henclosed.stop_eq]
    exact hrep.unique_iff.mpr rfl
  obtain ⟨L, u, R, answer, hfit, htaken⟩ : ∃ L u R answer, best_fit P h 0 0 = some answer ∧
      Taken P h first [⟨n, false⟩] P.BlockCtrlUnits L u R answer := by
    rcases hrep.best_fit_spec 0 0 with ⟨L, u, R, answer, hfit, _, htaken⟩ | ⟨hnone, _⟩ | ⟨hnone, _⟩
    · exact ⟨L, u, R, answer, hfit, hunits ▸ htaken⟩
    · have hless := hnone first n hfree
      omega
    · have hless := (hnone first n hfree).1
      omega
  have hop₁ := htaken.operation hrep (segment_best_fit hfit)
  have hbuffer := congrArg Prod.fst htaken.buffer
  obtain ⟨rfl, rfl, rfl⟩ : L = [] ∧ u = n ∧ R = [] := by
    have hblocks := htaken.blocks_eq
    cases L with
    | nil =>
      cases hblocks
      exact ⟨rfl, rfl, rfl⟩
    | cons c L =>
      have hlength := congrArg List.length hblocks
      simp at hlength
  have htakenblocks : taken_blocks P P.BlockCtrlUnits u =
      [⟨P.BlockCtrlUnits, true⟩, ⟨u - P.BlockCtrlUnits, false⟩] := if_pos hfits
  rw [htakenblocks, stop_nil, List.nil_append, List.append_nil] at hop₁
  rw [stop_nil] at hbuffer
  change answer.2.1 = _ at hbuffer
  have hsegment := hop₁.m_size_eq
  have henclosed₁ := henclosed.congr hop₁.segment hop₁.units_eq
  have hrep₁ : Rep P answer.1 first ([⟨P.BlockCtrlUnits, true⟩] ++ [⟨u - P.BlockCtrlUnits, false⟩]) :=
    hop₁.rep
  have hunitsL : units [⟨P.BlockCtrlUnits, true⟩] = P.BlockCtrlUnits := by simp
  obtain ⟨hout, hle⟩ := hrep₁.remove_last_outcome rfl (Nat.le_of_eq hunitsL.symm) henclosed₁
    (by rw [hsegment]; exact hsmall)
  have hnext : priv_next_block P answer.1.mem first = stop P.Alignment first [⟨P.BlockCtrlUnits, true⟩] := by
    rw [hop₁.rep.next_of_first, stop_cons, stop_nil]
  have hshrink : shrink_to_fit P h = priv_deallocate P
      (remove_last_block P answer.1 first (stop P.Alignment first [⟨P.BlockCtrlUnits, true⟩]))
      (priv_get_user_buffer P first) := by
    rw [← henclosed.first_eq] at hcond
    unfold shrink_to_fit
    simp only [priv_allocate_unique, hfit, hbuffer, priv_get_block_user_buffer, hnext,
      if_neg (priv_get_user_buffer_ne_zero (P := P) first), ← henclosed.first_eq, if_pos hcond]
  obtain ⟨blocks', hop₃⟩ := hout.rep.deallocate_operation (b := first) (u := P.BlockCtrlUnits)
    List.mem_cons_self
  have hout₃ := hop₃.outcome hout.enclosed
  have hunits₃ : units blocks' = P.BlockCtrlUnits := by rw [hop₃.units_eq, hunitsL]
  have hblocks' : blocks' = [⟨P.BlockCtrlUnits, false⟩] := by
    have hunused := hop₃.rep.blocks_of_unused (by omega) (by
      have hused := hop₃.used
      rw [usedBlocks_cons_used, usedBlocks_nil] at hused
      exact List.Perm.eq_nil (hused.cons_inv))
    rwa [hunits₃] at hunused
  subst hblocks'
  rw [hshrink]
  refine ⟨⟨hout₃.rep, hout₃.enclosed, List.Perm.refl _, ?_⟩, ?_⟩
  · intro b v hlive
    cases List.mem_singleton.mp hlive
  · rw [← hsegment]
    exact Nat.le_trans (Nat.le_of_eq hop₃.m_size_eq) hle

/-- A last block in use stays where it is. -/
theorem Rep.shrink_used (hrep : Rep P h first (L ++ [⟨n, true⟩]))
    (henclosed : Enclosed P h first (L ++ [⟨n, true⟩])) : shrink_to_fit P h = h := by
  have hend : m_prev_allocated h.mem (priv_end_block P h) = true := by
    rw [← henclosed.stop_eq]
    refine hrep.header_end.prev_allocated.trans ?_
    rw [last_append, last_cons, last_nil]
  by_cases hcond : priv_next_block P h.mem (priv_first_block P h) = priv_end_block P h
  · have hnil : L = [] := by
      cases L with
      | nil => rfl
      | cons b L =>
        rw [← henclosed.first_eq, ← henclosed.stop_eq, List.cons_append] at hcond
        have hnil := hrep.unique_iff.mp hcond
        simp at hnil
    subst hnil
    have hfree : ∀ b u, ¬ FreeAt P first ([] ++ [⟨n, true⟩]) b u := by
      intro b u hfree
      cases List.mem_singleton.mp hfree
    have hnone : best_fit P h 0 0 = none := by
      rcases hrep.best_fit_spec 0 0 with
        ⟨_, _, _, _, _, hfit, _⟩ | ⟨_, _, _, _, _, _, hfit, _⟩ | ⟨_, hnone⟩
      · exact absurd hfit.1 (hfree _ _)
      · exact absurd hfit.1 (hfree _ _)
      · exact hnone
    unfold shrink_to_fit
    simp only [if_pos hcond, priv_allocate_unique, hnone, if_true]
  · unfold shrink_to_fit
    simp only [if_neg hcond, if_pos hend]

/-- A free block at the end of others goes out of the segment. -/
theorem Rep.shrink_last {b : Block} (hrep : Rep P h first (b :: L ++ [⟨n, false⟩]))
    (henclosed : Enclosed P h first (b :: L ++ [⟨n, false⟩])) :
    shrink_to_fit P h = remove_last_block P h first (stop P.Alignment first (b :: L)) := by
  have hcond : ¬ priv_next_block P h.mem (priv_first_block P h) = priv_end_block P h := by
    rw [← henclosed.first_eq, ← henclosed.stop_eq, List.cons_append]
    intro hcond
    have hnil := hrep.unique_iff.mp hcond
    simp at hnil
  have hlast : last front (b :: L ++ [⟨n, false⟩]) = ⟨n, false⟩ := by
    rw [last_append, last_cons, last_nil]
  have hheader := hrep.header_end
  rw [hlast] at hheader
  have hstop : stop P.Alignment first (b :: L ++ [⟨n, false⟩]) =
      stop P.Alignment first (b :: L) + n * P.Alignment := by
    rw [stop_append, stop_cons, stop_nil]
  have hprev : priv_prev_block P h.mem (priv_end_block P h) = stop P.Alignment first (b :: L) := by
    have hsize : m_prev_size h.mem (stop P.Alignment first (b :: L ++ [⟨n, false⟩])) = n :=
      hheader.prev_size rfl
    rw [priv_prev_block, ← henclosed.stop_eq, hsize, hstop, Nat.add_sub_cancel]
  have hallocated : ¬ m_prev_allocated h.mem (priv_end_block P h) = true := by
    rw [← henclosed.stop_eq]
    have hfree : m_prev_allocated h.mem (stop P.Alignment first (b :: L ++ [⟨n, false⟩])) = false :=
      hheader.prev_allocated
    rw [hfree]
    exact Bool.false_ne_true
  unfold shrink_to_fit
  simp only [if_neg hcond, if_neg hallocated, hprev]
  rw [← henclosed.first_eq]

/-- `shrink_to_fit` gives free memory at the end of the segment back. -/
theorem Rep.shrink_to_fit_outcome (hrep : Rep P h first blocks) (henclosed : Enclosed P h first blocks)
    (hsmall : h.m_size < 2 ^ 62) (hfits : ShrinkFits P blocks) :
    ∃ blocks', Outcome P h (shrink_to_fit P h) first blocks blocks' [] [] ∧ Shrunk P blocks' ∧
      (shrink_to_fit P h).m_size ≤ h.m_size := by
  rcases List.eq_nil_or_concat blocks with rfl | ⟨L, ⟨n, used⟩, hblocks⟩
  · cases henclosed.units_pos
  rw [List.concat_eq_append] at hblocks
  rw [hblocks] at hrep henclosed hfits ⊢
  cases used with
  | true =>
    rw [hrep.shrink_used henclosed]
    refine ⟨L ++ [⟨n, true⟩], Outcome.refl hrep henclosed, Or.inr ?_, Nat.le_refl _⟩
    rw [last_append, last_cons, last_nil]
  | false =>
    cases L with
    | nil =>
      obtain ⟨hout, hle⟩ := hrep.shrink_unique henclosed hsmall (hfits n rfl)
      exact ⟨_, hout, Or.inl rfl, hle⟩
    | cons b L =>
      have hpos : P.BlockCtrlUnits ≤ units (b :: L) :=
        Nat.le_trans (hrep.sizes b List.mem_cons_self) (Nat.le_add_right _ _)
      obtain ⟨hout, hle⟩ := hrep.remove_last_outcome rfl hpos henclosed hsmall
      rw [hrep.shrink_last henclosed]
      refine ⟨_, hout, Or.inr ?_, hle⟩
      exact Rep.last_used (R := []) (by rwa [List.append_nil])

end interprocess.rbtree_best_fit
