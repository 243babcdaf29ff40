import Interprocess.Base.CoalescedTiling
import Interprocess.MemAlgo.RbtreeBestFit.Runs

namespace interprocess.rbtree_best_fit

open ipcdetail Memory Tiling Transition

variable {P : Traits} {h h' : Heap} {first : Nat} {blocks blocks' : List Block} {live : List Nat}

theorem coalesced_of_separated {a : Nat} {p : Block}
    (hseparated : Linked P.Alignment Separated a p blocks) : Coalesced blocks := by
  induction blocks generalizing a p with
  | nil => exact List.IsChain.nil
  | cons b rest ih =>
    cases rest with
    | nil => exact List.IsChain.singleton b
    | cons c rest => exact List.isChain_cons_cons.mpr ⟨hseparated.2.1, ih hseparated.2⟩

/-- The partition of a segment is determined by the blocks in use. -/
theorem Rep.blocks_eq (hrep : Rep P h first blocks) (hrep' : Rep P h' first blocks')
    (hunits : units blocks = units blocks')
    (hused : (usedBlocks P.Alignment first blocks).Perm (usedBlocks P.Alignment first blocks')) :
    blocks = blocks' := by
  have hpos : ∀ b ∈ blocks, 0 < b.units := fun b hb =>
    Nat.lt_of_lt_of_le P.BlockCtrlUnits_pos (hrep.sizes b hb)
  have hpos' : ∀ b ∈ blocks', 0 < b.units := fun b hb =>
    Nat.lt_of_lt_of_le P.BlockCtrlUnits_pos (hrep'.sizes b hb)
  exact Coalesced.eq_of_usedBlocks P.Alignment_pos (coalesced_of_separated hrep.separated)
    (coalesced_of_separated hrep'.separated) hpos hpos' hunits
    (usedBlocks_eq_of_perm P.Alignment_pos hpos hpos' hused)

/-- Two heaps with the same partition of the segment: their free blocks, the sizes of
    these and the counters agree. -/
structure Alike (P : Traits) (first : Nat) (h h' : Heap) : Prop where
  exists_blocks : ∃ blocks, Rep P h first blocks ∧ Rep P h' first blocks
  segment : h.segment = h'.segment
  nodes : h.m_imultiset.Perm h'.m_imultiset
  sizes : ∀ x ∈ h.m_imultiset, m_size h.mem x = m_size h'.mem x
  allocated : h.m_allocated = h'.m_allocated
  free_memory : get_free_memory P h = get_free_memory P h'

theorem Rep.alike (hrep : Rep P h first blocks) (hrep' : Rep P h' first blocks)
    (hsegment : h.segment = h'.segment) : Alike P first h h' := by
  have hallocated : h.m_allocated = h'.m_allocated := hrep.allocated.trans hrep'.allocated.symm
  obtain ⟨hthis, hrest⟩ := Prod.mk.inj hsegment
  obtain ⟨hextra, hsize⟩ := Prod.mk.inj hrest
  refine ⟨⟨blocks, hrep, hrep'⟩, hsegment, hrep.nodes.trans hrep'.nodes.symm, ?_, hallocated, ?_⟩
  · intro x hx
    obtain ⟨u, hu⟩ := hrep.mem_tree_iff.mp hx
    rw [hrep.free_size hu, hrep'.free_size hu]
  · rw [get_free_memory, get_free_memory, hthis, hextra, hsize, hallocated]

/-- Lists of the same buffers are lists of the same blocks. -/
theorem Rep.chained_perm {chained chained' : List (Nat × Nat)} (hrep : Rep P h first blocks)
    (hchained : ∀ p ∈ chained, LiveAt P first blocks p.1 p.2) (hnodup : chained.Nodup)
    (hchained' : ∀ p ∈ chained', LiveAt P first blocks p.1 p.2) (hnodup' : chained'.Nodup)
    (hperm : (buffers P chained).Perm (buffers P chained')) : chained.Perm chained' := by
  have hsubset : ∀ {xs ys : List (Nat × Nat)}, (∀ p ∈ xs, LiveAt P first blocks p.1 p.2) →
      (∀ p ∈ ys, LiveAt P first blocks p.1 p.2) → (buffers P xs).Perm (buffers P ys) →
      ∀ p ∈ xs, p ∈ ys := by
    intro xs ys hxs hys hxy p hp
    obtain ⟨q, hq, heq⟩ := List.mem_map.mp (hxy.subset (List.mem_map_of_mem hp))
    have haddress : q.1 = p.1 := Nat.add_right_cancel heq
    have hlive := hys q hq
    rw [haddress] at hlive
    have hsize : q.2 = p.2 := hrep.live_unique hlive (hxs p hp)
    rwa [← Prod.ext haddress hsize]
  rw [List.perm_ext_iff_of_nodup hnodup hnodup']
  exact fun p => ⟨hsubset hchained hchained' hperm p, hsubset hchained' hchained hperm.symm p⟩

/-- Buffers may be given back in any order. -/
theorem Owned.deallocate_many_alike {chain chain' : List Nat} (howned : Owned P h first blocks live)
    (hchain : chain.Subperm live) (hperm : chain'.Perm chain) :
    Alike P first (priv_deallocate_many P h chain) (priv_deallocate_many P h chain') := by
  have hchain' : chain'.Subperm live := hperm.subperm.trans hchain
  obtain ⟨chained, rfl, hchained, hnodup⟩ := howned.exists_chained hchain
  obtain ⟨chained', rfl, hchained', hnodup'⟩ := howned.exists_chained hchain'
  have hblocks := howned.rep.chained_perm hchained' hnodup' hchained hnodup hperm
  obtain ⟨L, hop⟩ := howned.rep.deallocate_many_operation hchained hnodup
  obtain ⟨L', hop'⟩ := howned.rep.deallocate_many_operation hchained' hnodup'
  have hused : (usedBlocks P.Alignment first L).Perm (usedBlocks P.Alignment first L') := by
    have hall := hop.used.trans (hop'.used.symm.trans (hblocks.append_right _))
    exact (List.perm_append_left_iff _).mp hall
  obtain rfl := hop.rep.blocks_eq hop'.rep (hop.units_eq.trans hop'.units_eq.symm) hused
  exact hop.rep.alike hop'.rep (hop.segment.trans hop'.segment.symm)

/-- Calls of `allocate`, and the buffers that they return. -/
def allocate_each (P : Traits) (h : Heap) : List Nat → Heap × List Nat
  | [] => (h, [])
  | nbytes :: requests =>
    let answer := allocate P h nbytes
    let more := allocate_each P answer.1 requests
    (more.1, if answer.2 = 0 then more.2 else answer.2 :: more.2)

theorem Rep.allocate_each_operation (hrep : Rep P h first blocks) (requests : List Nat) :
    ∃ blocks' fresh, (allocate_each P h requests).2 = buffers P fresh ∧
      Operation P h (allocate_each P h requests).1 first blocks blocks' [] fresh := by
  induction requests generalizing h blocks with
  | nil => exact ⟨blocks, [], rfl, Operation.refl hrep⟩
  | cons nbytes requests ih =>
    rcases hrep.allocate_new_granted nbytes with ⟨hnull, hheap⟩ | ⟨b, u, blocks₁, hptr, _, hop⟩
    · obtain ⟨blocks', fresh, hbuffers, hop⟩ := ih hrep
      refine ⟨blocks', fresh, ?_, ?_⟩
      · rw [allocate_each]
        simp only [allocate, hnull, hheap, if_true]
        exact hbuffers
      · rw [allocate_each]
        simp only [allocate, hheap]
        exact hop
    · obtain ⟨blocks', fresh, hbuffers, hop'⟩ := ih hop.rep
      refine ⟨blocks', (b, u) :: fresh, ?_, ?_⟩
      · rw [allocate_each]
        simp only [allocate, hptr, if_neg (priv_get_user_buffer_ne_zero (P := P) b), hbuffers]
        rfl
      · rw [allocate_each]
        exact hop.trans hop'

/-- Giving the buffers of some requests back, in any order, undoes the requests. -/
theorem Owned.allocations_undone {requests chain : List Nat} (howned : Owned P h first blocks live)
    (hperm : chain.Perm (allocate_each P h requests).2) :
    Alike P first h (priv_deallocate_many P (allocate_each P h requests).1 chain) := by
  obtain ⟨blocks₁, fresh, hbuffers, hop⟩ := howned.rep.allocate_each_operation requests
  rw [hbuffers] at hperm
  have hfresh : ∀ p ∈ fresh, LiveAt P first blocks₁ p.1 p.2 := fun p hp => hop.fresh_live hp
  have hall : (fresh ++ usedBlocks P.Alignment first blocks).Perm
      (usedBlocks P.Alignment first blocks₁) := hop.used.symm
  have hnodup : fresh.Nodup :=
    (hall.nodup_iff.mpr hop.rep.usedBlocks_nodup).sublist (List.sublist_append_left _ _)
  have howned₁ : Owned P (allocate_each P h requests).1 first blocks₁ (buffers P fresh) := by
    refine ⟨hop.rep, howned.enclosed.congr hop.segment hop.units_eq, ?_⟩
    have hsub := (List.sublist_append_left fresh (usedBlocks P.Alignment first blocks)).map
      (fun p => priv_get_user_buffer P p.1)
    exact hsub.subperm.trans (hall.map _).subperm
  obtain ⟨chained, rfl, hchained, hchained_nodup⟩ := howned₁.exists_chained hperm.subperm
  have hblocks := hop.rep.chained_perm hchained hchained_nodup hfresh hnodup hperm
  obtain ⟨blocks', hop'⟩ := hop.rep.deallocate_many_operation hchained hchained_nodup
  have hused : (usedBlocks P.Alignment first blocks).Perm (usedBlocks P.Alignment first blocks') := by
    have hback : (chained ++ usedBlocks P.Alignment first blocks').Perm
        (usedBlocks P.Alignment first blocks₁) := hop'.used
    have htotal := (hblocks.append_right _).trans (hall.trans hback.symm)
    exact (List.perm_append_left_iff _).mp htotal
  obtain rfl := howned.rep.blocks_eq hop'.rep (hop.units_eq.symm.trans hop'.units_eq.symm) hused
  exact howned.rep.alike hop'.rep (hop'.segment.trans hop.segment).symm

section Reached

variable {this segment_size extra_hdr_bytes : Nat} {mem : Memory} {s : State}
  (hmem : Constructible P this segment_size extra_hdr_bytes)
  (hrun : Reached P this segment_size extra_hdr_bytes mem s)

include hmem hrun

/-- From every state of every run the buffers of a chain may be given back in any
    order: the partition of the segment, the free blocks and the counters are the same
    in the end. -/
theorem deallocation_order_irrelevant {chain chain' : List Nat} (hchain : chain.Subperm s.live)
    (hperm : chain'.Perm chain) :
    Alike P (this + priv_first_block_offset_from_this P this extra_hdr_bytes)
      (priv_deallocate_many P s.heap chain) (priv_deallocate_many P s.heap chain') := by
  obtain ⟨blocks, howned⟩ := owned_in_every_run hmem hrun
  exact howned.deallocate_many_alike hchain hperm

/-- From every state of every run any requests are undone by giving their buffers back
    in any order. -/
theorem allocations_undone_in_any_order {requests chain : List Nat}
    (hperm : chain.Perm (allocate_each P s.heap requests).2) :
    Alike P (this + priv_first_block_offset_from_this P this extra_hdr_bytes) s.heap
      (priv_deallocate_many P (allocate_each P s.heap requests).1 chain) := by
  obtain ⟨blocks, howned⟩ := owned_in_every_run hmem hrun
  exact howned.allocations_undone hperm

end Reached

theorem deallocation_order_irrelevant_of_page :
    Alike raw_pointers (4096 + priv_first_block_offset_from_this raw_pointers 4096 0)
      (priv_deallocate_many raw_pointers page_twice_allocated.heap [4176, 4288])
      (priv_deallocate_many raw_pointers page_twice_allocated.heap [4288, 4176]) :=
  deallocation_order_irrelevant page_constructible page_twice_reached
    (List.Perm.subperm (by decide +kernel)) (List.Perm.swap _ _ _)

theorem allocations_undone_of_page :
    Alike raw_pointers (4096 + priv_first_block_offset_from_this raw_pointers 4096 0)
      page_allocated.heap
      (priv_deallocate_many raw_pointers (allocate_each raw_pointers page_allocated.heap [8, 300]).1
        [4336, 4288]) :=
  allocations_undone_in_any_order page_constructible page_allocated_reached (by decide +kernel)

end interprocess.rbtree_best_fit
