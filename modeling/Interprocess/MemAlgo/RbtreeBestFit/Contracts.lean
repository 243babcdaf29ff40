import Interprocess.MemAlgo.RbtreeBestFit.OrderIndependence

namespace interprocess.rbtree_best_fit

open ipcdetail Memory Tiling Transition

variable {P : Traits} {h h' : Heap} {s : State} {first n nbytes alignment ptr : Nat}
  {blocks : List Block}

/-- A buffer that was not held before: it has room for the request, is aligned, lies in
    the segment and does not meet the buffers held. -/
structure IsNew (P : Traits) (s : State) (h' : Heap) (nbytes ptr : Nat) : Prop where
  ne_zero : ptr ≠ 0
  not_held : ptr ∉ s.live
  room : nbytes ≤ size P h' ptr
  aligned : P.Alignment ∣ ptr
  inside : h'.this + P.sizeof_rbtree_best_fit + h'.m_extra_hdr_bytes ≤ ptr ∧
    ptr + size P h' ptr ≤ h'.this + h'.m_size
  apart : ∀ q ∈ s.live, ptr + size P h' ptr ≤ q ∨ q + size P h' q ≤ ptr

theorem Fresh.isNew (hfresh : Fresh P s.heap first blocks n h' ptr)
    (howned : Owned P s.heap first blocks s.live) (hn : nbytes ≤ user_bytes P n) :
    IsNew P s h' nbytes ptr := by
  obtain ⟨b, u, blocks', rfl, hu, hop⟩ := hfresh
  have howned' : Owned P h' first blocks' (priv_get_user_buffer P b :: s.live) :=
    (hop.outcome howned.enclosed).owned howned (List.Subperm.refl _)
  have hnot := (List.nodup_cons.mp howned'.nodup).1
  obtain ⟨hall, hapart⟩ := howned'.buffers_apart
  obtain ⟨haligned, hinside⟩ := hall _ List.mem_cons_self
  have hsize := hop.rep.live_size (hop.fresh_live List.mem_cons_self)
  refine ⟨priv_get_user_buffer_ne_zero b, hnot, ?_, haligned, hinside, ?_⟩
  · rw [size, priv_get_block_user_buffer, hsize]
    exact Nat.le_trans hn (user_bytes_mono hu)
  · intro q hq
    refine hapart _ List.mem_cons_self q (List.mem_cons_of_mem _ hq) fun heq => hnot ?_
    rw [heq]
    exact hq

/-- The smallest free block whose buffer has the bytes. -/
def BestFor (P : Traits) (first : Nat) (blocks : List Block) (nbytes b u : Nat) : Prop :=
  FreeAt P first blocks b u ∧ nbytes ≤ user_bytes P u ∧
    ∀ c w, FreeAt P first blocks c w → nbytes ≤ user_bytes P w → u ≤ w

theorem Owned.allocate_best_fit (howned : Owned P s.heap first blocks s.live)
    (hfits : Fits P nbytes) :
    (∃ b u, BestFor P first blocks nbytes b u ∧
      (allocate P s.heap nbytes).2 = priv_get_user_buffer P b ∧
      IsNew P s (allocate P s.heap nbytes).1 nbytes (allocate P s.heap nbytes).2) ∨
    ((∀ c w, FreeAt P first blocks c w → user_bytes P w < nbytes) ∧
      allocate P s.heap nbytes = (s.heap, 0)) := by
  have hiff : ∀ c w, FreeAt P first blocks c w →
      (priv_get_total_units P nbytes ≤ w ↔ nbytes ≤ user_bytes P w) := fun c w hc =>
    priv_get_total_units_le_iff hfits (howned.rep.sizes _ (mem_of_mem_placed _ hc))
  have hsegment := segment_priv_allocate_new (P := P) (h := s.heap) nbytes nbytes
  unfold allocate
  rcases howned.rep.allocate_new_spec nbytes with
    ⟨L, u, R, answer, hanswer, ⟨hfree, hle, hleast⟩, htaken⟩ | ⟨hnone, hanswer⟩
  · rw [hanswer] at hsegment ⊢
    have hfresh := htaken.fresh howned.rep hsegment
    refine Or.inl ⟨_, u, ⟨hfree, (hiff _ u hfree).mp hle, ?_⟩, congrArg Prod.fst htaken.buffer, ?_⟩
    · exact fun c w hc hw => hleast c w hc ((hiff c w hc).mpr hw)
    · refine hfresh.isNew howned ?_
      exact (priv_get_total_units_le_iff hfits (priv_get_total_units_ge P _)).mp (Nat.le_refl _)
  · rw [hanswer]
    refine Or.inr ⟨fun c w hc => ?_, rfl⟩
    have hless := hnone c w hc
    have hw := hiff c w hc
    omega

/-- The units of an aligned block hold the request. -/
theorem le_user_bytes_min_units (hfits : Fits P nbytes) : nbytes ≤ user_bytes P (min_units P nbytes) := by
  have hge := user_bytes_ge (P := P) (min_units P nbytes)
  by_cases hle : nbytes ≤ UsableByPreviousChunk
  · omega
  · rw [← user_units_le_iff hfits (Nat.le_of_not_le hle)]
    unfold min_units user_buffer_ceil_units
    rw [if_neg hle]
    omega

/-- The units that a free block needs for a request with an alignment. -/
def aligned_request_units (P : Traits) (nbytes alignment : Nat) : Nat :=
  if alignment ≤ P.Alignment then priv_get_total_units P nbytes
  else overaligned_units P nbytes alignment + P.AllocatedCtrlUnits

theorem Owned.allocate_aligned_contract (howned : Owned P s.heap first blocks s.live)
    (hfits : Fits P nbytes) (hpos : 0 < alignment) (hpow : alignment &&& (alignment - 1) = 0)
    (haligned : AlignedFits P nbytes alignment) :
    (alignment ∣ (allocate_aligned P s.heap nbytes alignment).2 ∧
      IsNew P s (allocate_aligned P s.heap nbytes alignment).1 nbytes
        (allocate_aligned P s.heap nbytes alignment).2) ∨
    ((∀ c w, FreeAt P first blocks c w → w < aligned_request_units P nbytes alignment) ∧
      allocate_aligned P s.heap nbytes alignment = (s.heap, 0)) := by
  have hlt : stop P.Alignment first blocks < 2 ^ 64 := by
    have hstop := howned.enclosed.stop_lt
    omega
  have hsegment := segment_allocate_aligned (P := P) (h := s.heap) nbytes alignment
  obtain ⟨k, hk, rfl⟩ := two_pow_of_and_pred hpos haligned.1 hpow
  unfold allocate_aligned aligned_request_units at *
  rw [if_neg (not_not.mpr hpow)] at hsegment ⊢
  by_cases hle : 2 ^ k ≤ P.Alignment
  · rw [if_pos hle] at hsegment ⊢
    rw [if_pos hle]
    have hdvd : 2 ^ k ∣ P.Alignment :=
      Nat.pow_dvd_pow 2 ((Nat.pow_le_pow_iff_right (by decide)).mp hle)
    rcases howned.rep.allocate_new_spec nbytes with
      ⟨L, u, R, answer, hanswer, _, htaken⟩ | ⟨hnone, hanswer⟩
    · rw [hanswer] at hsegment ⊢
      have hnew := (htaken.fresh howned.rep hsegment).isNew howned
        ((priv_get_total_units_le_iff hfits (priv_get_total_units_ge P _)).mp (Nat.le_refl _))
      exact Or.inl ⟨Nat.dvd_trans hdvd hnew.aligned, hnew⟩
    · rw [hanswer]
      exact Or.inr ⟨hnone, rfl⟩
  · rw [if_neg hle] at hsegment ⊢
    rw [if_neg hle]
    have hgt := Nat.lt_of_not_le hle
    rcases howned.rep.overaligned_spec hlt hk hgt (haligned.2 hgt) with ⟨hdvd, hcarved⟩ | hnone
    · exact Or.inl ⟨hdvd, (hcarved.fresh howned.rep hsegment).isNew howned
        (le_user_bytes_min_units hfits)⟩
    · exact Or.inr hnone

theorem forall₂_map_right {α β γ : Type} {R : α → β → Prop} {S : α → γ → Prop} {f : β → γ}
    {xs : List α} {ys : List β} (hall : List.Forall₂ R xs ys)
    (himp : ∀ x ∈ xs, ∀ y ∈ ys, R x y → S x (f y)) : List.Forall₂ S xs (ys.map f) := by
  induction hall with
  | nil => exact .nil
  | cons hxy hall ih =>
    refine .cons (himp _ List.mem_cons_self _ List.mem_cons_self hxy) (ih ?_)
    exact fun x hx y hy => himp x (List.mem_cons_of_mem _ hx) y (List.mem_cons_of_mem _ hy)

theorem Owned.allocate_many_contract {elem_sizes chain : List Nat} {sizeof_element : Nat}
    (howned : Owned P s.heap first blocks s.live) (hchain : chain.Subperm s.live)
    (hfits : ElementsFit P sizeof_element alignment elem_sizes)
    (hbytes : ∀ elem ∈ seen_sizes sizeof_element elem_sizes, Fits P (elem_bytes sizeof_element elem)) :
    let answer := priv_allocate_many P s.heap elem_sizes alignment sizeof_element chain
    (∃ blocks', Owned P answer.1 first blocks' (answer.2 ++ s.live.diff chain)) ∧
      ((¬ Requested P sizeof_element elem_sizes ∧ answer.2 = chain) ∨
        (Requested P sizeof_element elem_sizes ∧ (answer.2 = [] ∨ ∃ added, answer.2 = chain ++ added ∧
          List.Forall₂ (fun elem ptr => elem_bytes sizeof_element elem ≤ size P answer.1 ptr)
            (seen_sizes sizeof_element elem_sizes) added))) := by
  have hlt : stop P.Alignment first blocks < 2 ^ 64 := by
    have hstop := howned.enclosed.stop_lt
    omega
  obtain ⟨chained, rfl, hchained, hnodup⟩ := howned.exists_chained hchain
  obtain ⟨blocks', used, hbuffers, hop, hmany⟩ :=
    howned.rep.priv_allocate_many_spec hlt hchained hnodup hfits
  refine ⟨⟨blocks', (hop.outcome howned.enclosed).owned howned ?_⟩, ?_⟩
  · rw [hbuffers]
    refine ((List.perm_append_comm_assoc _ _ _).trans ?_).subperm
    exact (chain_diff hchain).append_left _
  · rw [hbuffers]
    rcases hmany with ⟨hnot, rfl⟩ | ⟨hrequested, rfl | ⟨added, rfl, hsuits⟩⟩
    · exact Or.inl ⟨hnot, rfl⟩
    · exact Or.inr ⟨hrequested, Or.inl rfl⟩
    · refine Or.inr ⟨hrequested, Or.inr ⟨buffers P added, buffers_append chained added, ?_⟩⟩
      refine forall₂_map_right hsuits fun elem helem p hp hsuit => ?_
      have hlive := hop.chain_live hchained p (List.mem_append_right _ hp)
      rw [size, priv_get_block_user_buffer, hop.rep.live_size hlive]
      rw [elem_units_eq] at hsuit
      have hp_units : P.BlockCtrlUnits ≤ p.2 := hop.rep.sizes _ (mem_of_mem_placed _ hlive)
      exact (priv_get_total_units_le_iff (hbytes elem helem) hp_units).mp hsuit.1

section Reached

variable {this segment_size extra_hdr_bytes : Nat} {mem : Memory}
  (hmem : Constructible P this segment_size extra_hdr_bytes)
  (hrun : Reached P this segment_size extra_hdr_bytes mem s)

include hmem hrun

/-- In every state of every run `allocate` takes the smallest free block that has the
    bytes, for a buffer that meets no buffer held, and answers null only when no free
    block has them. -/
theorem allocate_is_best_fit (hfits : Fits P nbytes) :
    ∃ blocks, Owned P s.heap (this + priv_first_block_offset_from_this P this extra_hdr_bytes) blocks
        s.live ∧
      ((∃ b u, BestFor P (this + priv_first_block_offset_from_this P this extra_hdr_bytes) blocks
          nbytes b u ∧
        (allocate P s.heap nbytes).2 = priv_get_user_buffer P b ∧
        IsNew P s (allocate P s.heap nbytes).1 nbytes (allocate P s.heap nbytes).2) ∨
      ((∀ c w, FreeAt P (this + priv_first_block_offset_from_this P this extra_hdr_bytes) blocks c w →
          user_bytes P w < nbytes) ∧
        allocate P s.heap nbytes = (s.heap, 0))) := by
  obtain ⟨blocks, howned⟩ := owned_in_every_run hmem hrun
  exact ⟨blocks, howned, howned.allocate_best_fit hfits⟩

/-- In every state of every run `allocate_aligned` answers an aligned buffer that meets
    no buffer held, or null, and this only when no free block has the padded units. -/
theorem allocate_aligned_in_every_run (hfits : Fits P nbytes) (hpos : 0 < alignment)
    (hpow : alignment &&& (alignment - 1) = 0) (haligned : AlignedFits P nbytes alignment) :
    ∃ blocks, Owned P s.heap (this + priv_first_block_offset_from_this P this extra_hdr_bytes) blocks
        s.live ∧
      ((alignment ∣ (allocate_aligned P s.heap nbytes alignment).2 ∧
        IsNew P s (allocate_aligned P s.heap nbytes alignment).1 nbytes
          (allocate_aligned P s.heap nbytes alignment).2) ∨
      ((∀ c w, FreeAt P (this + priv_first_block_offset_from_this P this extra_hdr_bytes) blocks c w →
          w < aligned_request_units P nbytes alignment) ∧
        allocate_aligned P s.heap nbytes alignment = (s.heap, 0))) := by
  obtain ⟨blocks, howned⟩ := owned_in_every_run hmem hrun
  exact ⟨blocks, howned, howned.allocate_aligned_contract hfits hpos hpow haligned⟩

/-- In every state of every run a request for many buffers gets them all, each with the
    bytes of its element, behind the chain, or none: then the whole chain is given back,
    unless the sizes overflow, which leaves it as it is. -/
theorem allocate_many_all_or_nothing {elem_sizes chain : List Nat} {sizeof_element : Nat}
    (hchain : chain.Subperm s.live) (hfits : ElementsFit P sizeof_element alignment elem_sizes)
    (hbytes : ∀ elem ∈ seen_sizes sizeof_element elem_sizes, Fits P (elem_bytes sizeof_element elem)) :
    let answer := priv_allocate_many P s.heap elem_sizes alignment sizeof_element chain
    (∃ blocks', Owned P answer.1 (this + priv_first_block_offset_from_this P this extra_hdr_bytes)
        blocks' (answer.2 ++ s.live.diff chain)) ∧
      ((¬ Requested P sizeof_element elem_sizes ∧ answer.2 = chain) ∨
        (Requested P sizeof_element elem_sizes ∧ (answer.2 = [] ∨ ∃ added, answer.2 = chain ++ added ∧
          List.Forall₂ (fun elem ptr => elem_bytes sizeof_element elem ≤ size P answer.1 ptr)
            (seen_sizes sizeof_element elem_sizes) added))) := by
  obtain ⟨blocks, howned⟩ := owned_in_every_run hmem hrun
  exact howned.allocate_many_contract hchain hfits hbytes

/-- In every state of every run a shrink cuts the buffer to the preferred units and
    keeps its bytes, finds that it has them already, or fails and leaves the heap as it
    is. -/
theorem shrink_in_every_run (hptr : ptr ∈ s.live) (max_size preferred_size : Nat) :
    ∃ u, size P s.heap ptr = user_bytes P u ∧
      ((CutsOff P u max_size preferred_size ∧
        (shrink P s.heap ptr max_size preferred_size).2 =
          (true, size P (shrink P s.heap ptr max_size preferred_size).1 ptr) ∧
        size P (shrink P s.heap ptr max_size preferred_size).1 ptr =
          user_bytes P (shrunk_units P preferred_size) ∧
        SameOn (shrink P s.heap ptr max_size preferred_size).1.mem s.heap.mem ptr
          (ptr + size P (shrink P s.heap ptr max_size preferred_size).1 ptr) ∧
        ∃ blocks', Owned P (shrink P s.heap ptr max_size preferred_size).1
          (this + priv_first_block_offset_from_this P this extra_hdr_bytes) blocks' s.live) ∨
      (IsPreferred P u max_size preferred_size ∧
        shrink P s.heap ptr max_size preferred_size = (s.heap, true, size P s.heap ptr)) ∨
      (¬ CutsOff P u max_size preferred_size ∧ ¬ IsPreferred P u max_size preferred_size ∧
        shrink P s.heap ptr max_size preferred_size = (s.heap, false, size P s.heap ptr))) := by
  obtain ⟨blocks, howned⟩ := owned_in_every_run hmem hrun
  obtain ⟨b, u, hlive, rfl⟩ := howned.exists_live hptr
  have hsize : size P s.heap (priv_get_user_buffer P b) = user_bytes P u := by
    rw [size, priv_get_block_user_buffer, howned.rep.live_size hlive]
  refine ⟨u, hsize, ?_⟩
  rw [hsize]
  rcases howned.rep.shrink_spec hlive max_size preferred_size with
    ⟨hcuts, h', blocks', hanswer, hop, hkeeps⟩ | hpreferred | hfails
  · have hsize' : size P h' (priv_get_user_buffer P b) = user_bytes P (shrunk_units P preferred_size) := by
      rw [size, priv_get_block_user_buffer, hop.rep.live_size (hop.live_resized hlive)]
    have hle : user_bytes P (shrunk_units P preferred_size) ≤ user_bytes P u :=
      user_bytes_mono (Nat.le_trans (Nat.le_add_right _ _) hcuts.2.2.2)
    refine Or.inl ⟨hcuts, ?_, ?_, ?_, blocks', ?_⟩
    · rw [hanswer, hsize']
    · rw [hanswer, hsize']
    · rw [hanswer, hsize']
      have hsame := hkeeps
      unfold KeepsBytes at hsame
      rwa [Nat.min_eq_right hle] at hsame
    · rw [hanswer]
      exact (hop.outcome howned.enclosed).owned howned (List.Subperm.refl _)
  · exact Or.inr (Or.inl hpreferred)
  · exact Or.inr (Or.inr hfails)

/-- In every state of every run `grow` leaves a heap of the buffers held just when what
    is left behind the end block is less than a unit or enough for a block. -/
theorem grow_keeps_the_heap_iff {extra_size : Nat}
    (hlt : s.heap.this + (s.heap.m_size + extra_size) ≤ 2 ^ 64) :
    (∃ blocks', Owned P (grow P s.heap extra_size)
      (this + priv_first_block_offset_from_this P this extra_hdr_bytes) blocks' s.live) ↔
    GrowFits P s.heap extra_size := by
  obtain ⟨blocks, howned⟩ := owned_in_every_run hmem hrun
  constructor
  · rintro ⟨blocks', howned'⟩
    exact (howned.rep.grow_iff howned.enclosed hlt).mp ⟨blocks', howned'.rep, howned'.enclosed⟩
  · intro hfits
    obtain ⟨blocks', hout, _⟩ := howned.rep.grow_outcome howned.enclosed hlt hfits
    exact ⟨blocks', hout.owned howned (List.Subperm.refl _)⟩

/-- In every state of every run `shrink_to_fit` leaves a heap of the buffers held that
    is not bigger and ends with a block in use, or with the smallest block when nothing
    is in use, unless then there is no room for two blocks. -/
theorem shrink_to_fit_in_every_run (hsmall : s.heap.m_size < 2 ^ 62)
    (hfits : s.heap.m_allocated = 0 →
      P.BlockCtrlUnits + P.BlockCtrlUnits ≤ m_size s.heap.mem (priv_first_block P s.heap)) :
    ∃ blocks', Owned P (shrink_to_fit P s.heap)
        (this + priv_first_block_offset_from_this P this extra_hdr_bytes) blocks' s.live ∧
      Shrunk P blocks' ∧ (shrink_to_fit P s.heap).m_size ≤ s.heap.m_size ∧
      ∀ p ∈ s.live, SameOn (shrink_to_fit P s.heap).mem s.heap.mem p (p + size P s.heap p) := by
  obtain ⟨blocks, howned⟩ := owned_in_every_run hmem hrun
  obtain ⟨blocks', hout, hshrunk, hle⟩ := howned.rep.shrink_to_fit_outcome howned.enclosed hsmall
    (howned.shrink_fits hfits)
  refine ⟨blocks', hout.owned howned (List.Subperm.refl _), hshrunk, hle, ?_⟩
  intro p hp
  obtain ⟨b, u, hlive, rfl⟩ := howned.exists_live hp
  rw [howned.rep.live_buffer hlive]
  exact hout.kept b u hlive List.not_mem_nil

/-- In every state of every run `zero_free_memory` clears the bytes of the free blocks
    that hold no header and no hook, and no others. -/
theorem zero_free_memory_in_every_run :
    ∃ blocks, Owned P s.heap (this + priv_first_block_offset_from_this P this extra_hdr_bytes) blocks
        s.live ∧
      Owned P (zero_free_memory P s.heap)
        (this + priv_first_block_offset_from_this P this extra_hdr_bytes) blocks s.live ∧
      ∀ y, (FreeByte P (this + priv_first_block_offset_from_this P this extra_hdr_bytes) blocks y →
          (zero_free_memory P s.heap).mem y = 0) ∧
        (¬ FreeByte P (this + priv_first_block_offset_from_this P this extra_hdr_bytes) blocks y →
          (zero_free_memory P s.heap).mem y = s.heap.mem y) := by
  obtain ⟨blocks, howned⟩ := owned_in_every_run hmem hrun
  have hout := howned.rep.zero_free_memory_operation.outcome howned.enclosed
  refine ⟨blocks, howned, hout.owned howned (List.Subperm.refl _), fun y => ⟨?_, ?_⟩⟩
  · exact howned.rep.zero_free_memory_clears
  · exact howned.rep.zero_free_memory_keeps

/-- In every state of every run the counters agree with the blocks: the tree holds what
    is not allocated, `get_free_memory` counts it with the end block and the bytes
    behind that, `all_memory_deallocated` tells whether no block is in use, and
    `check_sanity` succeeds. -/
theorem accounting_in_every_run :
    ∃ blocks, Owned P s.heap (this + priv_first_block_offset_from_this P this extra_hdr_bytes) blocks
        s.live ∧
      tree_bytes P s.heap + s.heap.m_allocated = units blocks * P.Alignment ∧
      get_free_memory P s.heap = tree_bytes P s.heap + P.EndCtrlBlockBytes + (s.heap.m_size -
        priv_first_block_offset_from_this P s.heap.this s.heap.m_extra_hdr_bytes) % P.Alignment ∧
      (all_memory_deallocated P s.heap ↔ usedBlocks P.Alignment
        (this + priv_first_block_offset_from_this P this extra_hdr_bytes) blocks = []) ∧
      check_sanity P s.heap = true := by
  obtain ⟨blocks, howned⟩ := owned_in_every_run hmem hrun
  exact ⟨blocks, howned, howned.rep.tree_bytes_eq, howned.rep.get_free_memory_eq howned.enclosed,
    howned.rep.all_memory_deallocated_iff howned.enclosed,
    howned.rep.check_sanity_true howned.enclosed⟩

end Reached

theorem allocate_is_best_fit_of_page :
    100 ≤ size raw_pointers (allocate raw_pointers page_allocated.heap 100).1
      (allocate raw_pointers page_allocated.heap 100).2 := by
  obtain ⟨_, _, ⟨_, _, _, _, hnew⟩ | ⟨_, hnull⟩⟩ :=
    allocate_is_best_fit page_constructible page_allocated_reached
      (show Fits raw_pointers 100 from ⟨by decide, by decide⟩)
  · exact hnew.room
  · have hptr : (allocate raw_pointers page_allocated.heap 100).2 ≠ 0 := by decide +kernel
    rw [hnull] at hptr
    exact absurd rfl hptr

theorem allocate_aligned_of_page :
    64 ∣ (allocate_aligned raw_pointers page_allocated.heap 100 64).2 := by
  obtain ⟨_, _, ⟨haligned, _⟩ | ⟨_, hnull⟩⟩ :=
    allocate_aligned_in_every_run page_constructible page_allocated_reached
      (show Fits raw_pointers 100 from ⟨by decide, by decide⟩) (show 0 < 64 by decide) (by decide)
      ⟨by decide, fun _ => show user_bytes _ _ < _ by decide +kernel⟩
  · exact haligned
  · rw [hnull]
    exact dvd_zero 64

theorem allocate_many_of_page :
    let answer := priv_allocate_many raw_pointers page_allocated.heap [16, 16] 0 0 [4176]
    ∃ blocks, Owned raw_pointers answer.1
      (4096 + priv_first_block_offset_from_this raw_pointers 4096 0) blocks
      (answer.2 ++ page_allocated.live.diff [4176]) := by
  refine (allocate_many_all_or_nothing page_constructible page_allocated_reached
    (List.Perm.subperm (by decide +kernel)) ?_ ?_).1
  · intro e he
    rw [List.mem_replicate.mp (show e ∈ List.replicate 2 16 from he) |>.2]
    exact ⟨by decide +kernel, fun hlt => absurd hlt (by decide)⟩
  · intro e he
    rw [List.mem_replicate.mp (show e ∈ List.replicate 2 16 from he) |>.2]
    exact ⟨by decide, by decide⟩

theorem shrink_of_page : ∃ u, size raw_pointers page_allocated.heap 4176 = user_bytes raw_pointers u :=
  (shrink_in_every_run page_constructible page_allocated_reached (by decide) 100 40).imp
    fun _ hshrink => hshrink.1

theorem grow_keeps_the_page :
    ∃ blocks, Owned raw_pointers (grow raw_pointers page_allocated.heap 4096)
      (4096 + priv_first_block_offset_from_this raw_pointers 4096 0) blocks page_allocated.live :=
  (grow_keeps_the_heap_iff page_constructible page_allocated_reached (by decide +kernel)).mpr
    (Or.inr (by decide +kernel))

theorem shrink_to_fit_of_page :
    (shrink_to_fit raw_pointers page_allocated.heap).m_size ≤ page_allocated.heap.m_size := by
  obtain ⟨_, _, _, hle, _⟩ := shrink_to_fit_in_every_run page_constructible page_allocated_reached
    (by decide +kernel) fun hzero => absurd hzero (by decide +kernel)
  exact hle

theorem zero_free_memory_of_page :
    ∃ blocks, Owned raw_pointers (zero_free_memory raw_pointers page_allocated.heap)
      (4096 + priv_first_block_offset_from_this raw_pointers 4096 0) blocks page_allocated.live :=
  (zero_free_memory_in_every_run page_constructible page_allocated_reached).imp
    fun _ hcleared => hcleared.2.1

theorem accounting_after_allocation : check_sanity raw_pointers page_allocated.heap = true := by
  obtain ⟨_, _, _, _, _, hsane⟩ := accounting_in_every_run page_constructible page_allocated_reached
  exact hsane

end interprocess.rbtree_best_fit
