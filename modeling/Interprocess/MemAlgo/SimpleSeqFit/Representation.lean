import Interprocess.MemAlgo.SimpleSeqFit.Release

namespace interprocess.ipcdetail.simple_seq_fit_impl

open Memory Tiling LinkedList

/-- The address of the first block. -/
def first_block (P : Traits) (h : Heap) : Nat :=
  h.this + priv_first_block_offset P h.this h.m_extra_hdr_bytes

@[simp] theorem root_update (P : Traits) (h : Heap) (size allocated : Nat) (mem : Memory) :
    root P { h with m_size := size, m_allocated := allocated, mem := mem } = root P h :=
  rfl

@[simp] theorem first_block_update (P : Traits) (h : Heap) (size allocated : Nat) (mem : Memory) :
    first_block P { h with m_size := size, m_allocated := allocated, mem := mem } =
      first_block P h :=
  rfl

/-- The blocks tile the segment up to its last whole unit, and the counter has the
    bytes of the allocated ones. -/
structure Segment (P : Traits) (h : Heap) (blocks : List Block) (stale : List Nat) : Prop where
  tiles : Tiles P (root P h) (first_block P h) h.mem blocks stale
  allocated : h.m_allocated = usedUnits blocks * P.Alignment
  this_aligned : P.Alignment ∣ h.this
  nonempty : first_block P h < h.this + h.m_size / P.Alignment * P.Alignment
  stop_eq : stop P.Alignment (first_block P h) blocks = h.this + h.m_size / P.Alignment * P.Alignment

/-- The heap invariant: a segment in which no two neighbours are free. -/
structure Rep (P : Traits) (h : Heap) (blocks : List Block) (stale : List Nat) : Prop
    extends Segment P h blocks stale where
  coalesced : Coalesced blocks

variable {P : Traits} {h : Heap} {blocks L R : List Block} {stale : List Nat} {u : Nat}

theorem Segment.units_pos (hseg : Segment P h blocks stale) : ∀ b ∈ blocks, 0 < b.units := by
  intro b hb
  exact Nat.lt_of_lt_of_le P.BlockCtrlUnits_pos (hseg.tiles.sizes b hb)

/-- The same segment with other counters and other bytes. -/
theorem Segment.of_tiles {size allocated : Nat} {mem : Memory}
    (htiles : Tiles P (root P h) (first_block P h) mem blocks stale)
    (hallocated : allocated = usedUnits blocks * P.Alignment) (haligned : P.Alignment ∣ h.this)
    (hnonempty : first_block P h < h.this + size / P.Alignment * P.Alignment)
    (hstop : stop P.Alignment (first_block P h) blocks =
      h.this + size / P.Alignment * P.Alignment) :
    Segment P { h with m_size := size, m_allocated := allocated, mem := mem } blocks stale :=
  ⟨htiles, hallocated, haligned, hnonempty, hstop⟩

/-- There are fewer blocks than bytes. -/
theorem Segment.units_le (hseg : Segment P h blocks stale) : units blocks ≤ h.m_size := by
  have hstop := hseg.stop_eq
  have hmul : units blocks ≤ units blocks * P.Alignment :=
    Nat.le_mul_of_pos_right _ P.Alignment_pos
  have hdiv := Nat.div_mul_le_self h.m_size P.Alignment
  unfold stop first_block at hstop
  omega

theorem Segment.frees_length_le (hseg : Segment P h blocks stale) :
    (frees P.Alignment (first_block P h) blocks).length ≤ h.m_size :=
  Nat.le_trans (length_frees_le _ _ hseg.units_pos) hseg.units_le

/-- Free blocks lie between the first block and the end. -/
theorem Tiles.free_bounds {root first x : Nat} {m : Memory} (htiles : Tiles P root first m blocks stale)
    (hx : x ∈ frees P.Alignment first blocks) : root < x ∧ x + 16 ≤ stop P.Alignment first blocks := by
  obtain ⟨v, hv⟩ := (mem_frees _).mp hx
  have hbound := mem_placed_bounds _ hv
  have hlength := length_ge htiles.sizes hv
  have hbefore := htiles.root_before
  omega

/-- The loop of `priv_deallocate` goes over the free blocks in front of the block. -/
theorem find_position_eq {m : Memory} {root block prev fuel : Nat} {xs ys : List Nat}
    (hpath : Path (m_next P m) prev (xs ++ ys) root) (hlow : ∀ x ∈ xs, root < x ∧ x < block)
    (hhigh : ∀ y ∈ ys.head?, block ≤ y) (hfuel : xs.length < fuel) :
    find_position P m root block fuel prev (m_next P m prev) =
      some (xs.getLastD prev, ys.headD root) := by
  induction xs generalizing prev fuel with
  | nil =>
    cases fuel with
    | zero => cases hfuel
    | succ fuel =>
      rw [List.nil_append] at hpath
      rw [hpath.next_eq, find_position, if_neg]
      · rfl
      · rintro ⟨hne, hlt⟩
        cases ys with
        | nil => exact hne rfl
        | cons y ys =>
          have := hhigh y rfl
          simp only [List.headD_cons] at hlt
          omega
  | cons x xs ih =>
    cases fuel with
    | zero => cases hfuel
    | succ fuel =>
      rw [List.cons_append, path_cons] at hpath
      have hx := hlow x List.mem_cons_self
      rw [hpath.1, find_position, if_pos ⟨by omega, hx.2⟩, if_neg (by omega),
        ih hpath.2 (fun y hy => hlow y (List.mem_cons_of_mem x hy))
          (by rw [List.length_cons] at hfuel; omega), List.getLastD_cons]

/-- The block of a buffer. -/
theorem priv_get_block_user_buffer (P : Traits) (x : Nat) :
    priv_get_block P (priv_get_user_buffer P x) = x :=
  Nat.add_sub_cancel _ _

theorem user_buffer_ne_zero (P : Traits) (x : Nat) : priv_get_user_buffer P x ≠ 0 := by
  have hge := P.BlockCtrlBytes_ge
  unfold priv_get_user_buffer Traits.AllocatedCtrlBytes
  omega

theorem priv_deallocate_eq {block prev pos : Nat}
    (hposition : find_position P h.mem (root P h) block (h.m_size + 1) (root P h)
      (m_next P h.mem (root P h)) = some (prev, pos)) :
    priv_deallocate P h (priv_get_user_buffer P block) = some { h with
      m_allocated := h.m_allocated - P.Alignment * m_size h.mem block
      mem := release P h.mem block prev pos } := by
  rw [priv_deallocate, if_neg (user_buffer_ne_zero P block), priv_get_block_user_buffer]
  exact congrArg (fun answer => answer.bind fun position => some { h with
    m_allocated := h.m_allocated - P.Alignment * m_size h.mem block
    mem := release P h.mem block position.1 position.2 }) hposition

/-- Deallocation gives an allocated block back. -/
theorem priv_deallocate_spec (hrep : Rep P h (L ++ ⟨u, true⟩ :: R) stale)
    (hfresh : stop P.Alignment (first_block P h) L ∉ stale) :
    ∃ allocated mem blocks,
      priv_deallocate P h (priv_get_user_buffer P (stop P.Alignment (first_block P h) L)) =
        some { h with m_allocated := allocated, mem := mem } ∧
      Rep P { h with m_allocated := allocated, mem := mem } blocks stale ∧
      Released P (first_block P h) h.mem mem (L ++ ⟨u, true⟩ :: R) blocks
        (stop P.Alignment (first_block P h) L) u := by
  have htiles := hrep.tiles
  obtain ⟨_, _, _, hlength, _⟩ := htiles.mid_pointer
  obtain ⟨blocks, htiles', hreleased⟩ := htiles.release hfresh
  have hsize : m_size h.mem (stop P.Alignment (first_block P h) L) = u :=
    congrArg block_ctrl.m_size (htiles.mid_used_ctrl hfresh)
  have hpath := htiles.path
  have hbounds : ∀ x ∈ frees P.Alignment (first_block P h) (L ++ ⟨u, true⟩ :: R), _ :=
    fun x hx => htiles.free_bounds hx
  rw [frees_append, frees_cons_used] at hpath hbounds
  have hposition : find_position P h.mem (root P h) (stop P.Alignment (first_block P h) L)
      (h.m_size + 1) (root P h) (m_next P h.mem (root P h)) = some
        (previous P (root P h) (first_block P h) L, following P (root P h)
          (stop P.Alignment (first_block P h) L + u * P.Alignment) R) := by
    refine find_position_eq hpath ?_ ?_ ?_
    · intro x hx
      obtain ⟨v, hv⟩ := (mem_frees _).mp hx
      have hbound := mem_placed_bounds _ hv
      have hlength' := length_ge (fun b hb => htiles.sizes b (List.mem_append_left _ hb)) hv
      exact ⟨(hbounds x (List.mem_append_left _ hx)).1, by omega⟩
    · intro y hy
      obtain ⟨v, hv⟩ := (mem_frees _).mp (List.mem_of_mem_head? hy)
      have hbound := (mem_placed_bounds _ hv).1
      omega
    · have hle := hrep.frees_length_le
      rw [frees_append, List.length_append] at hle
      omega
  refine ⟨_, _, blocks, priv_deallocate_eq hposition, ⟨Segment.of_tiles htiles' ?_
    hrep.this_aligned hrep.nonempty ?_, hreleased.coalesced hrep.coalesced⟩, hreleased⟩
  · have hallocated := hrep.allocated
    rw [hreleased.used_units, Nat.add_mul] at hallocated
    rw [hsize, Nat.mul_comm P.Alignment u]
    omega
  · rw [stop, hreleased.units_eq]
    exact hrep.stop_eq

end interprocess.ipcdetail.simple_seq_fit_impl
