import Interprocess.MemAlgo.SimpleSeqFit.Rounds

namespace interprocess.ipcdetail.simple_seq_fit_impl

open Memory Tiling LinkedList

variable {P : Traits} {h : Heap} {blocks L R : List Block} {stale live : List Nat}
  {sized : List (Nat × Nat)} {u w x n : Nat}

/-- The memory given to the constructor: aligned, with room for the header and a
    block, and with no size in `m_root`. -/
structure Constructible (P : Traits) (this segment_size extra_hdr_bytes : Nat) (mem : Memory) :
    Prop where
  this_pos : 0 < this
  this_aligned : P.Alignment ∣ this
  segment_lt : this + segment_size < 2 ^ 64
  header_le : P.sizeof_simple_seq_fit_impl + extra_hdr_bytes ≤ segment_size
  min_size_le : get_min_size P extra_hdr_bytes ≤ segment_size
  root_size : m_size mem (this + P.root_offset) = 0

theorem get_rounded_size_dvd (P : Traits) (k : Nat) : P.Alignment ∣ get_rounded_size k P.Alignment :=
  dvd_mod_two_pow (Nat.le_of_lt P.alignment_lt) rfl (Nat.dvd_mul_left _ _)

theorem le_of_dvd_of_lt_add {a b d : Nat} (ha : d ∣ a) (hb : d ∣ b) (hlt : a < b + d) : a ≤ b := by
  obtain ⟨p, rfl⟩ := ha
  obtain ⟨q, rfl⟩ := hb
  rw [← Nat.mul_succ] at hlt
  exact Nat.mul_le_mul_left d (Nat.lt_succ_iff.mp (Nat.lt_of_mul_lt_mul_left hlt))

theorem priv_first_block_offset_eq {this : Nat} (haligned : P.Alignment ∣ this)
    (extra_hdr_bytes : Nat) :
    priv_first_block_offset P this extra_hdr_bytes =
      get_rounded_size (P.sizeof_simple_seq_fit_impl + extra_hdr_bytes) P.Alignment := by
  have hzero : this - this / P.Alignment * P.Alignment = 0 := by
    rw [Nat.div_mul_cancel haligned, Nat.sub_self]
  simp only [priv_first_block_offset]
  rw [hzero, Nat.add_zero, Nat.sub_zero]

section Construct

variable {this segment_size extra_hdr_bytes : Nat} {mem : Memory}

/-- The first block starts behind the header and leaves room for a block. -/
theorem Constructible.first_block_offset
    (hmem : Constructible P this segment_size extra_hdr_bytes mem) :
    P.Alignment ∣ priv_first_block_offset P this extra_hdr_bytes ∧
      P.sizeof_simple_seq_fit_impl ≤ priv_first_block_offset P this extra_hdr_bytes ∧
      priv_first_block_offset P this extra_hdr_bytes + P.BlockCtrlBytes ≤ segment_size := by
  have hthis : P.Alignment ≤ this := Nat.le_of_dvd hmem.this_pos hmem.this_aligned
  have hlt := hmem.segment_lt
  have hheader := hmem.header_le
  have hinside := P.root_inside
  have hsum := get_rounded_size_bounds (P.sizeof_simple_seq_fit_impl + extra_hdr_bytes)
    P.Alignment_pos (by omega) (by omega)
  have hsizeof := get_rounded_size_bounds P.sizeof_simple_seq_fit_impl P.Alignment_pos (by omega)
    (by omega)
  have hextra : extra_hdr_bytes ≤ get_rounded_size extra_hdr_bytes P.Alignment := by
    rcases Nat.eq_zero_or_pos extra_hdr_bytes with rfl | hpos
    · exact Nat.zero_le _
    · exact (get_rounded_size_bounds extra_hdr_bytes P.Alignment_pos hpos (by omega)).1
  have hle : get_rounded_size (P.sizeof_simple_seq_fit_impl + extra_hdr_bytes) P.Alignment ≤
      get_rounded_size P.sizeof_simple_seq_fit_impl P.Alignment +
        get_rounded_size extra_hdr_bytes P.Alignment := by
    refine le_of_dvd_of_lt_add (get_rounded_size_dvd P _) (Nat.dvd_add (get_rounded_size_dvd P _)
      (get_rounded_size_dvd P _)) ?_
    omega
  have hmin := hmem.min_size_le
  unfold get_min_size at hmin
  rw [priv_first_block_offset_eq hmem.this_aligned]
  exact ⟨get_rounded_size_dvd P _, by omega, by omega⟩

/-- The headers that the constructor writes. -/
theorem construct_ctrl (mem : Memory) {root block1 k : Nat} (hroot : 8 ∣ root) (hblock : 8 ∣ block1)
    (hapart : root + 16 ≤ block1) (hlt : block1 < 2 ^ 64) (hk : k < 2 ^ 64) :
    ctrl P (set_next P (set_size (set_next P mem root block1) block1 k) block1 root) root =
        ⟨block1, m_size mem root⟩ ∧
      ctrl P (set_next P (set_size (set_next P mem root block1) block1 k) block1 root) block1 =
        ⟨root, k⟩ := by
  refine ⟨?_, ?_⟩
  · simp (disch := omega) only [ctrl_set_next_of_apart, ctrl_set_size_of_apart, ctrl_set_next]
    rfl
  · simp (disch := omega) only [ctrl_set_next, ctrl_set_size]

/-- A heap with one free block. -/
theorem Rep.of_one_free {k : Nat} (hroot : ctrl P h.mem (root P h) = ⟨first_block P h, 0⟩)
    (hblock : ctrl P h.mem (first_block P h) = ⟨root P h, k⟩) (hk : P.BlockCtrlUnits ≤ k)
    (hpos : 0 < h.this) (haligned : P.Alignment ∣ h.this)
    (hbefore : root P h + 16 ≤ first_block P h) (hfirst : P.Alignment ∣ first_block P h)
    (hstop : first_block P h + k * P.Alignment = h.this + h.m_size / P.Alignment * P.Alignment)
    (hlt : h.this + h.m_size < 2 ^ 64) (hallocated : h.m_allocated = 0) :
    Rep P h [⟨k, false⟩] [] := by
  have htruncated := Nat.div_mul_le_self h.m_size P.Alignment
  have hend : stop P.Alignment (first_block P h) [⟨k, false⟩] =
      first_block P h + k * P.Alignment := by
    rw [stop_cons, stop_nil]
  have hpositive : 0 < k * P.Alignment :=
    Nat.mul_pos (Nat.lt_of_lt_of_le P.BlockCtrlUnits_pos hk) P.Alignment_pos
  refine ⟨⟨?_, ?_, haligned, by omega, hend.trans hstop⟩, List.isChain_singleton _⟩
  · refine ⟨⟨congrArg block_ctrl.m_next hroot, congrArg block_ctrl.m_next hblock⟩,
      congrArg block_ctrl.m_size hroot, ?_, ?_, ?_, ?_, ?_, hbefore, hfirst, ?_⟩
    · intro x u hx
      simp only [placed, List.mem_singleton, Prod.mk.injEq, Block.mk.injEq, and_true] at hx
      obtain ⟨rfl, rfl⟩ := hx
      exact congrArg block_ctrl.m_size hblock
    · intro x u hx
      simp [placed] at hx
    · intro b hb
      rw [List.mem_singleton.mp hb]
      exact hk
    · exact Nat.lt_of_lt_of_le hpos (Nat.le_add_right _ _)
    · exact Nat.dvd_add (Nat.dvd_trans P.eight_dvd_Alignment haligned) P.root_aligned
    · rw [hend]
      omega
  · rw [hallocated]
    exact (Nat.zero_mul _).symm

/-- The new heap has one free block. -/
theorem construct_spec (hmem : Constructible P this segment_size extra_hdr_bytes mem) :
    Rep P (construct P this segment_size extra_hdr_bytes mem)
      [⟨(segment_size - priv_first_block_offset P this extra_hdr_bytes) / P.Alignment, false⟩] [] := by
  obtain ⟨hdvd, hsizeof, hroom⟩ := hmem.first_block_offset
  have hinside := P.root_inside
  have hlt := hmem.segment_lt
  have hunits : P.BlockCtrlUnits ≤
      (segment_size - priv_first_block_offset P this extra_hdr_bytes) / P.Alignment := by
    rw [Nat.le_div_iff_mul_le P.Alignment_pos, P.BlockCtrlUnits_mul]
    omega
  have hbytes : (segment_size - priv_first_block_offset P this extra_hdr_bytes) / P.Alignment <
      2 ^ 64 := Nat.lt_of_le_of_lt (Nat.div_le_self _ _) (by omega)
  have hroot : 8 ∣ this + P.root_offset :=
    Nat.dvd_add (Nat.dvd_trans P.eight_dvd_Alignment hmem.this_aligned) P.root_aligned
  have hfirst : P.Alignment ∣ this + priv_first_block_offset P this extra_hdr_bytes :=
    Nat.dvd_add hmem.this_aligned hdvd
  obtain ⟨hctrl, hctrl'⟩ := construct_ctrl (P := P) mem hroot
    (Nat.dvd_trans P.eight_dvd_Alignment hfirst) (by omega) (by omega) hbytes
  rw [hmem.root_size] at hctrl
  refine Rep.of_one_free hctrl hctrl' hunits hmem.this_pos hmem.this_aligned ?_ hfirst ?_ hlt rfl
  · change this + P.root_offset + 16 ≤ this + priv_first_block_offset P this extra_hdr_bytes
    omega
  · change this + priv_first_block_offset P this extra_hdr_bytes + _ * P.Alignment =
      this + segment_size / P.Alignment * P.Alignment
    obtain ⟨k, hk⟩ := hdvd
    have hle : k ≤ segment_size / P.Alignment := by
      rw [Nat.le_div_iff_mul_le P.Alignment_pos, Nat.mul_comm]
      omega
    rw [hk, Nat.sub_mul_div, Nat.add_assoc, Nat.mul_comm P.Alignment k, ← Nat.add_mul,
      Nat.add_sub_cancel' hle]

end Construct

theorem priv_block_end_offset_eq (haligned : P.Alignment ∣ h.this) :
    priv_block_end_offset P h = h.m_size / P.Alignment * P.Alignment := by
  have hzero : h.this - h.this / P.Alignment * P.Alignment = 0 := by
    rw [Nat.div_mul_cancel haligned, Nat.sub_self]
  simp only [priv_block_end_offset]
  rw [hzero, Nat.add_zero, Nat.sub_zero]
  rfl

section Ends

variable {root first : Nat} {m : Memory}

/-- An allocated block behind the last one. -/
theorem Tiles.push (htiles : Tiles P root first m blocks [])
    (hctrl : ctrl P m (stop P.Alignment first blocks) = ⟨0, w⟩) (hw : P.BlockCtrlUnits ≤ w)
    (hlt : stop P.Alignment first blocks + w * P.Alignment < 2 ^ 64) :
    Tiles P root first m (blocks ++ [⟨w, true⟩]) [] := by
  have hplaced : ∀ x b, (x, b) ∈ placed P.Alignment first (blocks ++ [⟨w, true⟩]) →
      (x, b) ∈ placed P.Alignment first blocks ∨
        x = stop P.Alignment first blocks ∧ b = ⟨w, true⟩ := by
    intro x b hx
    rw [placed_append, List.mem_append] at hx
    rcases hx with hx | hx
    · exact Or.inl hx
    · rcases List.mem_cons.mp hx with heq | hx
      · exact Or.inr (Prod.mk.inj heq)
      · cases hx
  refine { htiles with
    path := ?_, free_size := ?_, used_ctrl := ?_, sizes := ?_, stop_lt := ?_ }
  · rw [frees_append, frees_cons_used, frees_nil, List.append_nil]
    exact htiles.path
  · intro x u hx
    rcases hplaced x _ hx with hx | ⟨_, heq⟩
    · exact htiles.free_size x u hx
    · cases heq
  · intro x u hx hfresh
    rcases hplaced x _ hx with hx | ⟨rfl, heq⟩
    · exact htiles.used_ctrl x u hx hfresh
    · cases heq
      exact hctrl
  · intro b hb
    rcases List.mem_append.mp hb with hb | hb
    · exact htiles.sizes b hb
    · rw [List.mem_singleton.mp hb]
      exact hw
  · rw [stop_concat]
    exact hlt

/-- The last block, an allocated one, is left out. -/
theorem Tiles.pop (htiles : Tiles P root first m (blocks ++ [⟨w, true⟩]) stale) :
    Tiles P root first m blocks stale := by
  have hplaced : ∀ x b, (x, b) ∈ placed P.Alignment first blocks →
      (x, b) ∈ placed P.Alignment first (blocks ++ [⟨w, true⟩]) := by
    intro x b hx
    rw [placed_append]
    exact List.mem_append_left _ hx
  have hpath := htiles.path
  have hlt := htiles.stop_lt
  rw [frees_append, frees_cons_used, frees_nil, List.append_nil] at hpath
  rw [stop_concat] at hlt
  exact { htiles with
    path := hpath
    free_size := fun x u hx => htiles.free_size x u (hplaced x _ hx)
    used_ctrl := fun x u hx => htiles.used_ctrl x u (hplaced x _ hx)
    sizes := fun b hb => htiles.sizes b (List.mem_append_left _ hb)
    stop_lt := Nat.lt_of_le_of_lt (Nat.le_add_right _ _) hlt }

/-- What is written behind the last block does not touch the layout. -/
theorem Tiles.write_behind {m' : Memory} (htiles : Tiles P root first m blocks stale)
    (hframe : ∀ b, b < stop P.Alignment first blocks → m' b = m b) :
    Tiles P root first m' blocks stale := by
  have hbefore := htiles.root_before
  have hle := le_stop P.Alignment first blocks
  refine htiles.same_headers (fun b _ hhi => hframe b (by omega)) ?_
  intro y c hy b _ hhi
  have hbound := (mem_placed_bounds _ hy).2
  have hlength := length_ge htiles.sizes hy
  exact hframe b (by omega)

end Ends

/-- The live buffers keep their size and their bytes. -/
def Intact (P : Traits) (live : List Nat) (h h' : Heap) : Prop :=
  ∀ p ∈ live, size P h' p = size P h p ∧ SameOn h'.mem h.mem p (p + size P h p)

/-- A resized heap has the blocks that were allocated, with their bytes. -/
structure Resized (P : Traits) (h h' : Heap) (blocks blocks' : List Block) : Prop where
  this_eq : h'.this = h.this
  extra_eq : h'.m_extra_hdr_bytes = h.m_extra_hdr_bytes
  allocated_eq : h'.m_allocated = h.m_allocated
  useds_perm : (useds P.Alignment (first_block P h) blocks').Perm
    (useds P.Alignment (first_block P h) blocks)
  kept : ∀ y v, (y, (⟨v, true⟩ : Block)) ∈ placed P.Alignment (first_block P h) blocks →
    (y, (⟨v, true⟩ : Block)) ∈ placed P.Alignment (first_block P h) blocks' ∧
      SameOn h'.mem h.mem y (y + v * P.Alignment)

theorem Resized.first_block_eq {h' : Heap} {blocks' : List Block}
    (hresized : Resized P h h' blocks blocks') : first_block P h' = first_block P h := by
  unfold first_block
  rw [hresized.this_eq, hresized.extra_eq]

/-- The header of the block that `grow` makes. -/
theorem new_block_ctrl {m : Memory} {y k : Nat} (hy : 8 ∣ y) (hk : k < 2 ^ 64) :
    ctrl P (set_size (set_next P m y 0) y k) y = ⟨0, k⟩ := by
  rw [ctrl_set_size hk, ctrl_set_next hy (Nat.dvd_zero 8) (by decide)]

/-- The new memory becomes a free block. -/
theorem grow_new {extra_size : Nat} (hrep : Rep P h blocks [])
    (hlt : h.this + h.m_size + extra_size < 2 ^ 64)
    (hroom : P.BlockCtrlBytes ≤ h.m_size + extra_size - priv_block_end_offset P h) :
    ∃ h' blocks', grow P h extra_size = some h' ∧ h'.m_size = h.m_size + extra_size ∧
      Rep P h' blocks' [] ∧ Resized P h h' blocks blocks' := by
  have hend := priv_block_end_offset_eq hrep.this_aligned
  have hstop := hrep.stop_eq
  have hnew : h.this + priv_block_end_offset P h = stop P.Alignment (first_block P h) blocks := by
    rw [hend, hstop]
  have hunits : (h.m_size + extra_size - priv_block_end_offset P h) / P.Alignment =
      (h.m_size + extra_size) / P.Alignment - h.m_size / P.Alignment := by
    rw [hend, Nat.mul_comm, Nat.sub_mul_div]
  have hk : P.BlockCtrlUnits ≤ (h.m_size + extra_size - priv_block_end_offset P h) / P.Alignment := by
    rw [Nat.le_div_iff_mul_le P.Alignment_pos, P.BlockCtrlUnits_mul]
    exact hroom
  have hgrown : stop P.Alignment (first_block P h) blocks +
      (h.m_size + extra_size - priv_block_end_offset P h) / P.Alignment * P.Alignment =
        h.this + (h.m_size + extra_size) / P.Alignment * P.Alignment := by
    have hle : h.m_size / P.Alignment ≤ (h.m_size + extra_size) / P.Alignment :=
      Nat.div_le_div_right (Nat.le_add_right _ _)
    rw [hstop, hunits, Nat.add_assoc, ← Nat.add_mul, Nat.add_sub_cancel' hle]
  have htruncated := Nat.div_mul_le_self (h.m_size + extra_size) P.Alignment
  have hklt := Nat.div_le_self (h.m_size + extra_size - priv_block_end_offset P h) P.Alignment
  have hy : 8 ∣ stop P.Alignment (first_block P h) blocks := by
    refine Nat.dvd_trans P.eight_dvd_Alignment ?_
    exact (Nat.dvd_add_right hrep.tiles.first_aligned).mpr (Nat.dvd_mul_left _ _)
  simp only [grow]
  rw [if_neg (Nat.not_lt.mpr hroom), hnew, m_size_set_size (by omega)]
  generalize (h.m_size + extra_size - priv_block_end_offset P h) / P.Alignment = k at *
  have hctrl := new_block_ctrl (P := P) (m := h.mem) hy (show k < 2 ^ 64 by omega)
  have hframe : ∀ b, b < stop P.Alignment (first_block P h) blocks →
      set_size (set_next P h.mem (stop P.Alignment (first_block P h) blocks) 0)
        (stop P.Alignment (first_block P h) blocks) k b = h.mem b := by
    intro b hb
    exact (store_outside _ _ (by omega)).trans (P.store_ptr_frame (by omega))
  generalize set_size (set_next P h.mem (stop P.Alignment (first_block P h) blocks) 0)
    (stop P.Alignment (first_block P h) blocks) k = mem₀ at *
  have htiles : Tiles P (root P h) (first_block P h) mem₀ (blocks ++ [⟨k, true⟩]) [] :=
    (hrep.tiles.write_behind hframe).push hctrl hk (by omega)
  have hrep₀ : Rep P
      { h with
        m_size := h.m_size + extra_size
        m_allocated := h.m_allocated + k * P.Alignment
        mem := mem₀ } (blocks ++ [⟨k, true⟩]) [] := by
    refine ⟨Segment.of_tiles htiles ?_ hrep.this_aligned ?_ ?_, ?_⟩
    · rw [hrep.allocated, usedUnits_append, usedUnits_cons, usedUnits_nil, Nat.add_mul]
      rfl
    · have hnonempty := hrep.nonempty
      omega
    · rw [stop_concat, hgrown]
    · exact coalesced_used hrep.coalesced List.isChain_nil
  obtain ⟨allocated, mem, blocks', hanswer, hrep', hreleased⟩ :=
    priv_deallocate_spec hrep₀ List.not_mem_nil
  refine ⟨_, blocks', hanswer, rfl, hrep', rfl, rfl, ?_, ?_, ?_⟩
  · have hused := hreleased.used_units
    rw [usedUnits_append, usedUnits_cons, usedUnits_nil] at hused
    simp only [↓reduceIte] at hused
    have hallocated : allocated = usedUnits blocks' * P.Alignment := hrep'.allocated
    change allocated = h.m_allocated
    rw [hallocated, hrep.allocated]
    congr 1
    omega
  · have hperm := hreleased.useds_perm
    simp only [first_block_update] at hperm
    rw [useds_append, useds_cons_used, useds_nil] at hperm
    exact (hperm.symm.trans List.perm_append_comm).cons_inv
  · intro y v hy
    have hbound : y + v * P.Alignment ≤ stop P.Alignment (first_block P h) blocks :=
      (mem_placed_bounds _ hy).2
    have hlength : 16 ≤ v * P.Alignment := length_ge hrep.tiles.sizes hy
    obtain ⟨hplaced, hsame⟩ := hreleased.kept y v (by
      rw [placed_append]
      exact List.mem_append_left _ hy) (by
      simp only [first_block_update]
      omega)
    exact ⟨hplaced, hsame.trans fun b _ hhi => hframe b (by omega)⟩

/-- New memory without a whole unit changes nothing else. -/
theorem grow_rest {extra_size : Nat} (hrep : Rep P h blocks [])
    (hroom : h.m_size + extra_size - priv_block_end_offset P h < P.BlockCtrlBytes) :
    grow P h extra_size = some { h with m_size := h.m_size + extra_size } ∧
      ((h.m_size + extra_size) / P.Alignment = h.m_size / P.Alignment →
        Rep P { h with m_size := h.m_size + extra_size } blocks []) := by
  refine ⟨?_, ?_⟩
  · simp only [grow]
    rw [if_pos hroom]
  · intro heq
    refine ⟨Segment.of_tiles hrep.tiles hrep.allocated hrep.this_aligned ?_ ?_, hrep.coalesced⟩
    · rw [heq]
      exact hrep.nonempty
    · rw [hrep.stop_eq, heq]

end interprocess.ipcdetail.simple_seq_fit_impl
