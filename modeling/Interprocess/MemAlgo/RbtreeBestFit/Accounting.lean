import Interprocess.MemAlgo.RbtreeBestFit.ShrinkToFit

namespace interprocess.rbtree_best_fit

open ipcdetail Memory Tiling

section Definitions

variable (P : Traits)

/-- The sum of the sizes of the free blocks and the alignment of each, in the order of
    the tree. -/
def sane_blocks (m : Memory) : List Nat → Nat → Option Nat
  | [], free_memory => some free_memory
  | ib :: nodes, free_memory =>
    let free_memory := (free_memory + m_size m ib * P.Alignment) % 2 ^ 64
    if ib % P.Alignment = 0 then sane_blocks m nodes free_memory else none

def check_sanity (h : Heap) : Bool :=
  match sane_blocks P h.mem h.m_imultiset 0 with
  | none => false
  | some free_memory =>
    if h.m_size < h.m_allocated then false
    else
      let block1_off := priv_first_block_offset_from_this P h.this h.m_extra_hdr_bytes
      !decide (size_sub h.m_size block1_off < free_memory)

end Definitions

variable {P : Traits} {h : Heap} {first : Nat} {blocks : List Block} {m m' : Memory}

/-- Bytes of free blocks that neither a header nor a hook takes. -/
def FreeByte (P : Traits) (first : Nat) (blocks : List Block) (y : Nat) : Prop :=
  ∃ x u, FreeAt P first blocks x u ∧ x + P.BlockCtrlBytes ≤ y ∧ y < x + u * P.Alignment

/-- A step of the loop of `zero_free_memory` keeps the sizes of the free blocks. -/
theorem zero_block_sizes (hsizes : ∀ b ∈ blocks, P.BlockCtrlUnits ≤ b.units) {x u : Nat}
    (hx : FreeAt P first blocks x u) (hm : ∀ y v, FreeAt P first blocks y v → m_size m y = v) :
    ∀ y v, FreeAt P first blocks y v →
      m_size (m.zero (x + P.BlockCtrlBytes) (u * P.Alignment - P.BlockCtrlBytes)) y = v := by
  intro y v hy
  have hge := P.BlockCtrlBytes_ge
  have hu : P.BlockCtrlBytes ≤ u * P.Alignment :=
    bytes_ge (b := ⟨u, false⟩) (hsizes _ (mem_of_mem_placed _ hx))
  have hv : P.BlockCtrlBytes ≤ v * P.Alignment :=
    bytes_ge (b := ⟨v, false⟩) (hsizes _ (mem_of_mem_placed _ hy))
  have hapart : y + 16 ≤ x + P.BlockCtrlBytes ∨ x + u * P.Alignment ≤ y := by
    rcases placed_apart _ hx hy with ⟨rfl, _⟩ | hapart | hapart
    · omega
    · exact Or.inr hapart
    · change y + v * P.Alignment ≤ x at hapart
      omega
  rw [← hm y v hy]
  refine congrArg SizeHolder.m_size (holder_congr fun z hlo hhi => ?_)
  have hsame : SameOn (m.zero (x + P.BlockCtrlBytes) (u * P.Alignment - P.BlockCtrlBytes)) m (y + 8)
      (y + 16) := zero_sameOn m (by omega)
  exact hsame z hlo hhi

/-- The loop of `zero_free_memory`. -/
theorem zero_blocks_apply (hsizes : ∀ b ∈ blocks, P.BlockCtrlUnits ≤ b.units) {nodes : List Nat}
    (hnodes : ∀ x ∈ nodes, ∃ u, FreeAt P first blocks x u)
    (hm : ∀ x u, FreeAt P first blocks x u → m_size m x = u) (y : Nat) :
    ((∀ x ∈ nodes, ∀ u, FreeAt P first blocks x u →
        y < x + P.BlockCtrlBytes ∨ x + u * P.Alignment ≤ y) → zero_blocks P m nodes y = m y) ∧
      (zero_blocks P m nodes y = m y ∨ zero_blocks P m nodes y = 0) ∧
      (∀ x ∈ nodes, ∀ u, FreeAt P first blocks x u → x + P.BlockCtrlBytes ≤ y →
        y < x + u * P.Alignment → zero_blocks P m nodes y = 0) := by
  induction nodes generalizing m with
  | nil => exact ⟨fun _ => rfl, Or.inl rfl, fun _ hx => nomatch hx⟩
  | cons ib nodes ih =>
    obtain ⟨v, hv⟩ := hnodes ib List.mem_cons_self
    have hbytes : P.BlockCtrlBytes ≤ v * P.Alignment :=
      bytes_ge (b := ⟨v, false⟩) (hsizes _ (mem_of_mem_placed _ hv))
    obtain ⟨hout, hor, hin⟩ := ih (fun x hx => hnodes x (List.mem_cons_of_mem _ hx))
      (zero_block_sizes hsizes hv hm)
    simp only [zero_blocks, hm ib v hv]
    refine ⟨?_, ?_, ?_⟩
    · intro hall
      rw [hout fun x hx => hall x (List.mem_cons_of_mem _ hx)]
      have hapart := hall ib List.mem_cons_self v hv
      exact if_neg (by omega)
    · rcases hor with heq | heq
      · rw [heq]
        unfold zero
        split_ifs
        · exact Or.inr rfl
        · exact Or.inl rfl
      · exact Or.inr heq
    · intro x hx u hu hlo hhi
      rcases List.mem_cons.mp hx with rfl | hx
      · obtain rfl : v = u := (hm x v hv).symm.trans (hm x u hu)
        rcases hor with heq | heq
        · rw [heq]
          exact if_pos (by omega)
        · exact heq
      · exact hin x hx u hu hlo hhi

/-- The buffers hold no free bytes. -/
theorem buffer_not_free {b u y : Nat} (hlive : LiveAt P first blocks b u)
    (hlo : b + P.AllocatedCtrlBytes ≤ y) (hhi : y < b + u * P.Alignment + UsableByPreviousChunk) :
    ¬ FreeByte P first blocks y := by
  rintro ⟨x, v, hx, hxlo, hxhi⟩
  have hge := P.BlockCtrlBytes_ge
  unfold UsableByPreviousChunk at hhi
  rcases placed_apart _ hlive hx with ⟨_, hne⟩ | hapart | hapart
  · cases hne
  · change b + u * P.Alignment ≤ x at hapart
    omega
  · change x + v * P.Alignment ≤ b at hapart
    omega

section ZeroFreeMemory

variable (hrep : Rep P h first blocks)

include hrep

/-- `zero_free_memory` clears the free blocks behind their headers and hooks. -/
theorem Rep.zero_free_memory_clears {y : Nat} (hy : FreeByte P first blocks y) :
    (zero_free_memory P h).mem y = 0 := by
  obtain ⟨x, u, hx, hlo, hhi⟩ := hy
  exact (zero_blocks_apply hrep.sizes (fun x hx => hrep.mem_tree_iff.mp hx)
    (fun x u hx => hrep.free_size hx) y).2.2 x (hrep.mem_tree_iff.mpr ⟨u, hx⟩) u hx hlo hhi

/-- All other bytes stay as they are. -/
theorem Rep.zero_free_memory_keeps {y : Nat} (hy : ¬ FreeByte P first blocks y) :
    (zero_free_memory P h).mem y = h.mem y := by
  refine (zero_blocks_apply hrep.sizes (fun x hx => hrep.mem_tree_iff.mp hx)
    (fun x u hx => hrep.free_size hx) y).1 ?_
  intro x _ u hx
  by_contra hin
  exact hy ⟨x, u, hx, by omega, by omega⟩

/-- A header holds no free bytes. -/
theorem Rep.header_not_free {x y : Nat} {b : Block}
    (hx : (x, b) ∈ placed P.Alignment first (blocks ++ [⟨units blocks, true⟩])) (hlo : x ≤ y)
    (hhi : y < x + 16) : ¬ FreeByte P first blocks y := by
  rintro ⟨z, u, hz, hzlo, hzhi⟩
  have hge := P.BlockCtrlBytes_ge
  have hz' : (z, (⟨u, false⟩ : Block)) ∈ placed P.Alignment first (blocks ++ [⟨units blocks, true⟩]) := by
    rw [placed_append]
    exact List.mem_append_left _ hz
  rcases placed_apart _ hx hz' with ⟨rfl, _⟩ | hapart | hapart
  · omega
  · rw [placed_append] at hx
    rcases List.mem_append.mp hx with hmem | hmem
    · have hbytes := bytes_ge (hrep.sizes b (mem_of_mem_placed _ hmem))
      omega
    · obtain rfl : x = stop P.Alignment first blocks :=
        congrArg Prod.fst (List.mem_singleton.mp hmem)
      have hbound := (mem_placed_bounds _ hz).2
      change z + u * P.Alignment ≤ _ at hbound
      omega
  · change z + u * P.Alignment ≤ x at hapart
    omega

/-- A change that spares the headers keeps the invariant. -/
theorem Rep.of_headers (hframe : ∀ x b, (x, b) ∈ placed P.Alignment first
      (blocks ++ [⟨units blocks, true⟩]) → SameOn m' h.mem x (x + 16)) :
    Rep P { h with mem := m' } first blocks := by
  have hctrl : ∀ x b, (x, b) ∈ placed P.Alignment first (blocks ++ [⟨units blocks, true⟩]) →
      ctrl m' x = ctrl h.mem x := fun x b hx => ctrl_congr fun y hlo hhi => hframe x b hx y hlo hhi
  refine ⟨?_, ?_, hrep.sizes, hrep.separated, hrep.nodes, ?_, hrep.allocated, hrep.units_lt,
    hrep.aligned, hrep.stop_le⟩
  · refine hrep.headers.imp fun x q b hx hheader => ?_
    obtain ⟨hsize, hprev, hallocated, hprev_size⟩ := hheader
    rw [← hctrl x b hx] at hsize hprev hallocated hprev_size
    exact ⟨hsize, hprev, hallocated, hprev_size⟩
  · obtain ⟨b, hb⟩ : ∃ b, (first, b) ∈ placed P.Alignment first (blocks ++ [⟨units blocks, true⟩]) := by
      cases blocks with
      | nil => exact ⟨_, List.mem_cons_self⟩
      | cons b rest => exact ⟨b, List.mem_cons_self⟩
    rw [← hrep.first_prev_size]
    change (ctrl m' first).m_prev_size = (ctrl h.mem first).m_prev_size
    rw [hctrl first b hb]
  · refine pairwise_le_congr hrep.sorted fun x hx => ?_
    obtain ⟨u, hu⟩ := hrep.mem_tree_iff.mp hx
    have hu' : (x, (⟨u, false⟩ : Block)) ∈ placed P.Alignment first
        (blocks ++ [⟨units blocks, true⟩]) := by
      rw [placed_append]
      exact List.mem_append_left _ hu
    change (ctrl m' x).m_size = (ctrl h.mem x).m_size
    rw [hctrl x _ hu']

theorem Rep.zero_free_memory_operation :
    Operation P h (zero_free_memory P h) first blocks blocks [] [] := by
  refine ⟨?_, rfl, rfl, List.Perm.refl _, ?_⟩
  · refine hrep.of_headers fun x b hx y hlo hhi => ?_
    exact hrep.zero_free_memory_keeps (hrep.header_not_free hx hlo hhi)
  · intro b u hlive _ y hlo hhi
    exact hrep.zero_free_memory_keeps (buffer_not_free hlive hlo hhi)

end ZeroFreeMemory

/-- The bytes of the free blocks, as the tree knows them. -/
def tree_bytes (P : Traits) (h : Heap) : Nat :=
  (h.m_imultiset.map (m_size h.mem)).sum * P.Alignment

/-- The sizes that the headers of the free blocks store. -/
theorem frees_sizes {p : Block} {tail : List Block}
    (hheaders : Linked P.Alignment (HeaderAt (ctrl m)) first p (blocks ++ tail)) :
    ((frees P.Alignment first blocks).map (m_size m)).sum + usedUnits blocks = units blocks := by
  induction blocks generalizing first p with
  | nil => rfl
  | cons b rest ih =>
    obtain ⟨u, used⟩ := b
    obtain ⟨hheader, hheaders⟩ := hheaders
    have hrest := ih hheaders
    change ((frees P.Alignment (first + u * P.Alignment) rest).map (m_size m)).sum +
      usedUnits rest = units rest at hrest
    have hsize : m_size m first = u := hheader.size
    cases used with
    | true =>
      rw [frees_cons_used, usedUnits_cons, units_cons]
      simp only [if_true]
      omega
    | false =>
      rw [frees_cons_free, usedUnits_cons, units_cons, List.map_cons, List.sum_cons, hsize]
      simp only [Bool.false_eq_true, if_false]
      omega

theorem Rep.tree_bytes_eq (hrep : Rep P h first blocks) :
    tree_bytes P h + h.m_allocated = units blocks * P.Alignment := by
  unfold tree_bytes
  rw [(hrep.nodes.map _).sum_nat, hrep.allocated, ← Nat.add_mul, frees_sizes hrep.headers]

/-- The segment is its header, the blocks, the end block and less than a unit. -/
theorem Enclosed.m_size_eq (henclosed : Enclosed P h first blocks) :
    h.m_size = priv_first_block_offset_from_this P h.this h.m_extra_hdr_bytes +
      (units blocks * P.Alignment + P.EndCtrlBlockBytes) +
      (h.m_size - priv_first_block_offset_from_this P h.this h.m_extra_hdr_bytes) % P.Alignment := by
  have hfirst := henclosed.first_eq
  have hstop := henclosed.stop_eq
  have hend := henclosed.end_le
  have hpos := henclosed.units_pos
  unfold priv_first_block at hfirst
  unfold priv_end_block stop at hstop
  unfold stop at hend
  simp only at hstop
  rw [← hfirst] at hstop
  generalize priv_first_block_offset_from_this P h.this h.m_extra_hdr_bytes = off at *
  have hunits := Nat.eq_of_mul_eq_mul_right P.Alignment_pos (Nat.add_left_cancel hstop)
  have hdiv : (h.m_size - off) / P.Alignment = units blocks + P.EndCtrlBlockUnits := by omega
  have hsplit := Nat.div_add_mod (h.m_size - off) P.Alignment
  rw [hdiv, Nat.mul_comm, Nat.add_mul, P.EndCtrlBlockUnits_mul] at hsplit
  omega

section Accounting

variable (hrep : Rep P h first blocks) (henclosed : Enclosed P h first blocks)

include hrep henclosed

/-- `get_free_memory` counts the free blocks, the end block and what is less than a
    unit. -/
theorem Rep.get_free_memory_eq :
    get_free_memory P h = tree_bytes P h + P.EndCtrlBlockBytes +
      (h.m_size - priv_first_block_offset_from_this P h.this h.m_extra_hdr_bytes) % P.Alignment := by
  have hfree := hrep.tree_bytes_eq
  have hsize := henclosed.m_size_eq
  have hle := henclosed.segment_le
  have hpos := henclosed.this_pos
  have hused : size_sub h.m_size h.m_allocated = h.m_size - h.m_allocated :=
    size_sub_of_le (by omega) (by omega)
  unfold get_free_memory
  rw [hused, size_sub_of_le (by omega) (by omega)]
  omega

/-- `all_memory_deallocated` tells whether no block is in use. -/
theorem Rep.all_memory_deallocated_iff :
    all_memory_deallocated P h ↔ usedBlocks P.Alignment first blocks = [] := by
  have hpos := henclosed.units_pos
  have hsize := henclosed.m_size_eq
  constructor
  · rintro ⟨hallocated, _⟩
    rw [hrep.allocated] at hallocated
    have hzero : usedUnits blocks = 0 :=
      (Nat.mul_eq_zero.mp hallocated).resolve_right (Nat.ne_of_gt P.Alignment_pos)
    by_contra hused
    obtain ⟨⟨b, u⟩, hmem⟩ := List.exists_mem_of_ne_nil _ hused
    obtain ⟨L, R, rfl, rfl⟩ := exists_of_mem_placed _ ((mem_usedBlocks _).mp hmem)
    have hu : P.BlockCtrlUnits ≤ u := hrep.sizes ⟨u, true⟩ (by simp)
    have hone := P.BlockCtrlUnits_pos
    rw [usedUnits_append, usedUnits_cons] at hzero
    simp only [if_true] at hzero
    omega
  · intro hused
    have hblocks := hrep.blocks_of_unused hpos hused
    have hnodes := hrep.nodes
    have hallocated := hrep.allocated
    have hheader := hrep.headers
    rw [hblocks] at hnodes hallocated hheader
    have hone : h.m_imultiset = [first] := List.perm_singleton.mp hnodes
    have hunits : m_size h.mem first = units blocks := hheader.1.size
    refine ⟨by rw [hallocated, usedUnits_cons]; simp, first, hone, ?_⟩
    rw [hunits, eq_comm]
    have hless := Nat.mod_lt
      (h.m_size - priv_first_block_offset_from_this P h.this h.m_extra_hdr_bytes) P.Alignment_pos
    refine Nat.div_eq_of_lt_le ?_ ?_
    · omega
    · rw [Nat.add_mul, Nat.one_mul]
      omega

end Accounting

/-- The loop of `check_sanity` over aligned nodes. -/
theorem sane_blocks_eq {nodes : List Nat} (haligned : ∀ x ∈ nodes, x % P.Alignment = 0)
    (free_memory : Nat)
    (hlt : free_memory + (nodes.map (m_size m)).sum * P.Alignment < 2 ^ 64) :
    sane_blocks P m nodes free_memory =
      some (free_memory + (nodes.map (m_size m)).sum * P.Alignment) := by
  induction nodes generalizing free_memory with
  | nil => simp [sane_blocks]
  | cons x nodes ih =>
    rw [List.map_cons, List.sum_cons, Nat.add_mul] at hlt ⊢
    simp only [sane_blocks, if_pos (haligned x List.mem_cons_self)]
    rw [Nat.mod_eq_of_lt (by omega),
      ih (fun y hy => haligned y (List.mem_cons_of_mem x hy)) _ (by omega), Nat.add_assoc]

/-- A heap that keeps its invariant is sane. -/
theorem Rep.check_sanity_true (hrep : Rep P h first blocks) (henclosed : Enclosed P h first blocks) :
    check_sanity P h = true := by
  have hfree := hrep.tree_bytes_eq
  have hsize := henclosed.m_size_eq
  have hle := henclosed.segment_le
  have hpos := henclosed.this_pos
  have haligned : ∀ x ∈ h.m_imultiset, x % P.Alignment = 0 := by
    intro x hx
    obtain ⟨u, hu⟩ := hrep.mem_tree_iff.mp hx
    obtain ⟨L, R, -, rfl⟩ := exists_of_mem_placed _ hu
    exact Nat.mod_eq_zero_of_dvd (Nat.dvd_add hrep.aligned (Nat.dvd_mul_left _ _))
  unfold tree_bytes at hfree
  unfold check_sanity
  rw [sane_blocks_eq haligned 0 (by omega)]
  simp only [Nat.zero_add]
  rw [if_neg (by omega), size_sub_of_le (by omega) (by omega)]
  simp only [Bool.not_eq_true', decide_eq_false_iff_not]
  omega

end interprocess.rbtree_best_fit
