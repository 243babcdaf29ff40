import Interprocess.Base.Transition
import Interprocess.MemAlgo.SimpleSeqFit.ShrinkToFit

namespace interprocess.ipcdetail.simple_seq_fit_impl

open Memory Tiling LinkedList Transition

/-- The heap and the buffers that its clients hold. -/
structure State where
  heap : Heap
  live : List Nat

/-- What clients do: the operations, and writes into their buffers. -/
inductive Call where
  | allocate (nbytes : Nat)
  | allocate_aligned (nbytes alignment : Nat)
  | deallocate (addr : Nat)
  | allocation_command (command : allocation_type) (limit_size preferred_size reuse_ptr : Nat)
      (sizeof_object : Nat)
  | allocate_many (elem_bytes n_elements alignment : Nat) (chain : List Nat)
  | allocate_many_sized (elem_sizes : List Nat) (sizeof_element alignment : Nat) (chain : List Nat)
  | deallocate_many (chain : List Nat)
  | write (mem : Memory)

section Calls

variable (P : Traits)

/-- A call, with the buffers held after it. A fresh buffer of a command comes with a
    null `reuse_ptr`; a chain is the caller's while it is being extended. -/
def step (s : State) : Call → Option State
  | .allocate nbytes =>
    (allocate P s.heap nbytes).map fun answer =>
      ⟨answer.1, if answer.2 = 0 then s.live else answer.2 :: s.live⟩
  | .allocate_aligned nbytes alignment =>
    (allocate_aligned P s.heap nbytes alignment).map fun answer =>
      ⟨answer.1, if answer.2 = 0 then s.live else answer.2 :: s.live⟩
  | .deallocate addr => (deallocate P s.heap addr).map fun h => ⟨h, s.live.erase addr⟩
  | .allocation_command command limit_size preferred_size reuse_ptr sizeof_object =>
    (allocation_command P s.heap command limit_size preferred_size reuse_ptr sizeof_object).map
      fun answer => ⟨answer.heap,
        if answer.ret ≠ 0 ∧ answer.reuse_ptr = 0 then answer.ret :: s.live else s.live⟩
  | .allocate_many elem_bytes n_elements alignment chain =>
    (allocate_many P s.heap elem_bytes n_elements alignment chain).map fun answer =>
      ⟨answer.1, answer.2 ++ s.live.diff chain⟩
  | .allocate_many_sized elem_sizes sizeof_element alignment chain =>
    (allocate_many_sized P s.heap elem_sizes sizeof_element alignment chain).map fun answer =>
      ⟨answer.1, answer.2 ++ s.live.diff chain⟩
  | .deallocate_many chain => (deallocate_many P s.heap chain).map fun h => ⟨h, s.live.diff chain⟩
  | .write mem => some ⟨{ s.heap with mem := mem }, s.live⟩

/-- The chain is made of buffers with room for a link. -/
def IsChain (s : State) (chain : List Nat) : Prop :=
  chain.Subperm s.live ∧ ∀ p ∈ chain, 8 ≤ size P s.heap p

/-- What a client may do: it gives back, reuses and writes its own buffers, and its
    request sizes do not overflow when they are padded. -/
def Permitted (s : State) : Call → Prop
  | .allocate _ => True
  | .allocate_aligned nbytes alignment =>
    alignment < 2 ^ 64 ∧ (P.Alignment < alignment → RequestFits P nbytes alignment)
  | .deallocate addr => addr = 0 ∨ addr ∈ s.live
  | .allocation_command _ _ _ reuse_ptr sizeof_object =>
    0 < sizeof_object ∧ (reuse_ptr = 0 ∨ reuse_ptr ∈ s.live)
  | .allocate_many elem_bytes n_elements alignment chain =>
    IsChain P s chain ∧ alignment < 2 ^ 64 ∧
      ElementsFit P 0 alignment (List.replicate n_elements elem_bytes)
  | .allocate_many_sized elem_sizes sizeof_element alignment chain =>
    IsChain P s chain ∧ sizeof_element < 2 ^ 64 ∧
      ElementsFit P alignment sizeof_element elem_sizes
  | .deallocate_many chain => chain.Subperm s.live
  | .write mem =>
    ∀ b, (∀ p ∈ s.live, b < p ∨ p + size P s.heap p ≤ b) → mem b = s.heap.mem b

end Calls

variable {P : Traits} {h : Heap} {blocks : List Block} {live : List Nat}

theorem Owned.not_mem_zero (howned : Owned P h blocks [] live []) : 0 ∉ live := by
  intro hzero
  obtain ⟨L, u, R, _, hptr⟩ := howned.exists_block hzero
  exact user_buffer_ne_zero P _ hptr.symm

/-- The bytes of a buffer. -/
theorem Owned.size_eq_of_placed {x v : Nat} (howned : Owned P h blocks [] live [])
    (hx : (x, (⟨v, true⟩ : Block)) ∈ placed P.Alignment (first_block P h) blocks) :
    priv_get_user_buffer P x + size P h (priv_get_user_buffer P x) = x + v * P.Alignment := by
  obtain ⟨L, R, rfl, rfl⟩ := exists_of_mem_placed _ hx
  have hv : m_size h.mem (stop P.Alignment (first_block P h) L) = v :=
    congrArg block_ctrl.m_size (howned.tiles.mid_used_ctrl List.not_mem_nil)
  have hlt := howned.tiles.mid_stop_lt
  have hbytes := bytes_ge (howned.tiles.sizes ⟨v, true⟩ (by simp))
  change P.BlockCtrlBytes ≤ v * P.Alignment at hbytes
  rw [size, priv_get_block_user_buffer, get_user_bytes, hv, Nat.mod_eq_of_lt (by omega),
    size_sub_of_le hbytes (by omega)]
  change stop P.Alignment (first_block P h) L + P.BlockCtrlBytes + _ = _
  omega

/-- Every permitted call returns and leaves a heap of the buffers held. -/
theorem step_holds {s : State} (hholds : Holds P s.heap s.live []) {call : Call}
    (hpermitted : Permitted P s call) :
    ∃ s', step P s call = some s' ∧ Holds P s'.heap s'.live [] := by
  cases call with
  | allocate nbytes =>
    obtain ⟨h', ptr, hanswer, hgranted⟩ := allocate_granted hholds nbytes
    exact ⟨_, by rw [step, hanswer]; rfl, hgranted.holds⟩
  | allocate_aligned nbytes alignment =>
    obtain ⟨h', ptr, hanswer, hgranted⟩ := allocate_aligned_granted hholds
      (fun _ _ hp => nomatch hp) hpermitted.1 hpermitted.2
    exact ⟨_, by rw [step, hanswer]; rfl, hgranted.holds⟩
  | deallocate addr =>
    rw [step, deallocate]
    rcases hpermitted with rfl | hlive
    · obtain ⟨blocks, howned⟩ := hholds
      rw [if_pos rfl]
      refine ⟨_, rfl, blocks, ?_⟩
      rw [List.erase_of_not_mem howned.not_mem_zero]
      exact howned
    · obtain ⟨h', hanswer, hholds'⟩ := priv_deallocate_holds hholds hlive
      obtain ⟨blocks, howned⟩ := hholds
      have hne : addr ≠ 0 := fun hzero => howned.not_mem_zero (hzero ▸ hlive)
      rw [if_neg hne, hanswer]
      exact ⟨_, rfl, hholds'⟩
  | allocation_command command limit_size preferred_size reuse_ptr sizeof_object =>
    have hreuse : reuse_ptr ≠ 0 → reuse_ptr ∈ s.live := fun hne => hpermitted.2.resolve_left hne
    obtain ⟨answer, hanswer, hanswered⟩ := allocation_command_answered hholds command limit_size
      preferred_size hreuse sizeof_object
    exact ⟨_, by rw [step, hanswer]; rfl, hanswered.holds⟩
  | allocate_many elem_bytes n_elements alignment chain =>
    obtain ⟨⟨hchain, hsize⟩, hlt, hfits⟩ := hpermitted
    obtain ⟨h', chain', hanswer, hholds'⟩ :=
      priv_allocate_many_holds hholds hchain hsize hlt hfits
    exact ⟨_, by rw [step, allocate_many, hanswer]; rfl, hholds'⟩
  | allocate_many_sized elem_sizes sizeof_element alignment chain =>
    obtain ⟨⟨hchain, hsize⟩, hlt, hfits⟩ := hpermitted
    obtain ⟨h', chain', hanswer, hholds'⟩ :=
      priv_allocate_many_holds hholds hchain hsize hlt hfits
    exact ⟨_, by rw [step, allocate_many_sized, hanswer]; rfl, hholds'⟩
  | deallocate_many chain =>
    obtain ⟨h', hanswer, hholds'⟩ := deallocate_many_holds hholds hpermitted
    exact ⟨_, by rw [step, hanswer]; rfl, hholds'⟩
  | write mem =>
    obtain ⟨blocks, howned⟩ := hholds
    refine ⟨_, rfl, blocks, howned.user_write fun b hb => hpermitted b ?_⟩
    intro p hp
    obtain ⟨L, u, R, rfl, rfl⟩ := howned.exists_block hp
    have hplaced := mem_placed_mid P.Alignment (first_block P s.heap) ⟨u, true⟩ L R
    rw [howned.size_eq_of_placed hplaced]
    exact hb _ u hplaced

/-- The heap that the blocks and the buffers held describe. -/
structure Invariant (P : Traits) (h : Heap) (live : List Nat) (blocks : List Block) : Prop where
  circular : Path (m_next P h.mem) (root P h) (frees P.Alignment (first_block P h) blocks) (root P h)
  sorted : (frees P.Alignment (first_block P h) blocks).Pairwise (· < ·)
  coalesced : ∀ x u y, (x, (⟨u, false⟩ : Block)) ∈ placed P.Alignment (first_block P h) blocks →
    y ∈ frees P.Alignment (first_block P h) blocks → x + u * P.Alignment ≠ y
  stored_size : ∀ x b, (x, b) ∈ placed P.Alignment (first_block P h) blocks →
    m_size h.mem x = b.units
  null_link : ∀ x b, (x, b) ∈ placed P.Alignment (first_block P h) blocks →
    (m_next P h.mem x = 0 ↔ b.used = true)
  tiles : stop P.Alignment (first_block P h) blocks = h.this + h.m_size / P.Alignment * P.Alignment
  min_units : ∀ b ∈ blocks, P.BlockCtrlUnits ≤ b.units
  allocated : h.m_allocated = P.Alignment * usedUnits blocks
  live_perm : live.Perm ((useds P.Alignment (first_block P h) blocks).map (priv_get_user_buffer P))

theorem Owned.invariant (howned : Owned P h blocks [] live []) : Invariant P h live blocks := by
  refine ⟨howned.tiles.path, frees_sorted _ P.Alignment_pos howned.units_pos, ?_, ?_, ?_,
    howned.stop_eq, howned.tiles.sizes, ?_, howned.live_perm⟩
  · intro x u y hx hy
    exact howned.coalesced.frees_apart _ P.Alignment_pos howned.units_pos hx hy
  · intro x b hx
    obtain ⟨u, used⟩ := b
    cases used with
    | false => exact howned.tiles.free_size x u hx
    | true =>
      exact congrArg block_ctrl.m_size (howned.tiles.used_ctrl x u hx List.not_mem_nil)
  · intro x b hx
    obtain ⟨u, used⟩ := b
    cases used with
    | false =>
      obtain ⟨L, R, rfl, rfl⟩ := exists_of_mem_placed _ hx
      rw [howned.tiles.next_free]
      have hpos := howned.tiles.root_pos
      have hbefore := howned.tiles.root_before
      have hle := le_stop P.Alignment (first_block P h) L
      rcases following_cases P (root P h)
        (stop P.Alignment (first_block P h) L + u * P.Alignment) R with heq | ⟨v, hv⟩
      · simp only [heq, Bool.false_eq_true, iff_false]
        omega
      · have hbound := (mem_placed_bounds _ hv).1
        simp only [Bool.false_eq_true, iff_false]
        omega
    | true =>
      have hnext : m_next P h.mem x = 0 :=
        congrArg block_ctrl.m_next (howned.tiles.used_ctrl x u hx List.not_mem_nil)
      simp only [hnext]
  · rw [howned.allocated, Nat.mul_comm]

/-- The constructor gives a heap without buffers. -/
theorem construct_holds {this segment_size extra_hdr_bytes : Nat} {mem : Memory}
    (hmem : Constructible P this segment_size extra_hdr_bytes mem) :
    Holds P (construct P this segment_size extra_hdr_bytes mem) [] [] := by
  refine ⟨_, construct_spec hmem, ?_, fun _ _ hp => nomatch hp⟩
  rw [useds_cons_free, useds_nil, List.map_nil]

/-- In every run from a construction, with any permitted calls in any order, the
    free list is circular through `m_root`, sorted and coalesced, and tiles the
    segment with the allocated blocks, which are those of the buffers held; and
    every permitted call returns. -/
theorem heap_invariant {this segment_size extra_hdr_bytes : Nat} {mem : Memory}
    (hmem : Constructible P this segment_size extra_hdr_bytes mem) {s : State}
    (hrun : Reaches (step P) (Permitted P)
      ⟨construct P this segment_size extra_hdr_bytes mem, []⟩ s) :
    (∃ blocks, Invariant P s.heap s.live blocks) ∧
      ∀ call, Permitted P s call → ∃ s', step P s call = some s' := by
  have hholds : Holds P s.heap s.live [] := by
    refine hrun.invariant (P := fun s => Holds P s.heap s.live []) (construct_holds hmem) ?_
    intro s call t hs hpermitted hstep
    obtain ⟨s', hstep', hholds'⟩ := step_holds hs hpermitted
    rw [hstep] at hstep'
    rw [Option.some.inj hstep']
    exact hholds'
  refine ⟨?_, ?_⟩
  · obtain ⟨blocks, howned⟩ := hholds
    exact ⟨blocks, howned.invariant⟩
  · intro call hpermitted
    obtain ⟨s', hstep, _⟩ := step_holds hholds hpermitted
    exact ⟨s', hstep⟩

/-- The links of a chain of raw pointers, the last one null. -/
def raw_links (m : Memory) : List Nat → Memory
  | [] => m
  | p :: chain => raw_links (m.store p 8 (chain.headD 0)) chain

theorem raw_links_frame (m : Memory) (chain : List Nat) (b : Nat)
    (hb : ∀ p ∈ chain, b < p ∨ p + 8 ≤ b) : raw_links m chain b = m b := by
  induction chain generalizing m with
  | nil => rfl
  | cons p chain ih =>
    rw [raw_links, ih _ fun q hq => hb q (List.mem_cons_of_mem p hq)]
    exact store_outside m _ (hb p List.mem_cons_self)

/-- Raw pointers, blocks aligned to 16 bytes and no mutex. -/
def raw_pointers : Traits where
  log2_alignment := 4
  alignment_ge := by decide
  alignment_lt := by decide
  root_offset := 0
  root_aligned := by decide
  sizeof_simple_seq_fit_impl := 40
  root_inside := by decide
  load_ptr := fun m a => m.load a 8
  store_ptr := fun m a p => m.store a 8 p
  load_store_ptr := fun m a p _ _ hp => (load_store m a 8 p).trans (Nat.mod_eq_of_lt hp)
  load_ptr_congr := load_congr
  store_ptr_frame := fun hb => store_outside _ _ hb
  write_links := raw_links
  write_links_frame := raw_links_frame

/-- A page of cleared memory at address 4096. -/
theorem page_constructible : Constructible raw_pointers 4096 4096 0 (fun _ => 0) where
  this_pos := by decide
  this_aligned := by decide
  segment_lt := by decide
  header_le := by decide
  min_size_le := by decide
  root_size := by decide

theorem page_allocates : ∃ s, step raw_pointers
    ⟨construct raw_pointers 4096 4096 0 fun _ => 0, []⟩ (.allocate 100) = some s ∧
      s.live = [4160] ∧ s.heap.this = 4096 ∧ s.heap.m_size = 4096 := by
  have hanswer : (step raw_pointers ⟨construct raw_pointers 4096 4096 0 fun _ => 0, []⟩
      (.allocate 100)).map (fun s => (s.live, s.heap.this, s.heap.m_size)) =
        some ([4160], 4096, 4096) := by decide +kernel
  obtain ⟨s, hstep, hs⟩ := Option.map_eq_some_iff.mp hanswer
  simp only [Prod.mk.injEq] at hs
  exact ⟨s, hstep, hs⟩

/-- The invariant of a new heap on a page, and after an allocation from it. -/
theorem heap_invariant_of_page :
    ∃ s, step raw_pointers ⟨construct raw_pointers 4096 4096 0 fun _ => 0, []⟩ (.allocate 100) =
      some s ∧ ∃ blocks, Invariant raw_pointers s.heap s.live blocks := by
  have hpermitted : Permitted raw_pointers ⟨construct raw_pointers 4096 4096 0 fun _ => 0, []⟩
      (.allocate 100) := trivial
  obtain ⟨s, hstep⟩ := (heap_invariant page_constructible .refl).2 _ hpermitted
  exact ⟨s, hstep, (heap_invariant page_constructible (.tail .refl hpermitted hstep)).1⟩

end interprocess.ipcdetail.simple_seq_fit_impl
