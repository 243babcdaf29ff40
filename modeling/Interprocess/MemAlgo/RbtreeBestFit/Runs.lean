import Interprocess.Base.Transition
import Interprocess.MemAlgo.RbtreeBestFit.Accounting
import Interprocess.MemAlgo.RbtreeBestFit.Rounds

namespace interprocess.rbtree_best_fit

open ipcdetail Memory Tiling Transition

/-- The heap and the buffers that its clients hold. -/
structure State where
  heap : Heap
  live : List Nat

/-- What clients do: the operations, and writes into their buffers. -/
inductive Call where
  | allocate (nbytes : Nat)
  | allocate_aligned (nbytes alignment : Nat)
  | deallocate (addr : Nat)
  | allocation_command (command : allocation_type) (limit_size preferred_size reuse_ptr : Nat)
      (sizeof_object alignof_object : Nat)
  | allocate_many (elem_bytes n_elements alignment : Nat) (chain : List Nat)
  | allocate_many_sized (elem_sizes : List Nat) (sizeof_element alignment : Nat) (chain : List Nat)
  | deallocate_many (chain : List Nat)
  | grow (extra_size : Nat)
  | shrink_to_fit
  | zero_free_memory
  | write (mem : Memory)

section Calls

variable (P : Traits)

/-- The buffers held after a command. One with a pointer to reuse stands for it. -/
def held (live : List Nat) (answer : Answer) : List Nat :=
  if answer.ret = 0 then live
  else if answer.reuse_ptr = 0 then answer.ret :: live
  else answer.ret :: live.erase answer.reuse_ptr

/-- A call, with the buffers held after it. A chain is the caller's while it is being
    extended. -/
def step (s : State) : Call → State
  | .allocate nbytes =>
    let answer := allocate P s.heap nbytes
    ⟨answer.1, held s.live ⟨answer.1, answer.2, 0, 0⟩⟩
  | .allocate_aligned nbytes alignment =>
    let answer := allocate_aligned P s.heap nbytes alignment
    ⟨answer.1, held s.live ⟨answer.1, answer.2, 0, 0⟩⟩
  | .deallocate addr => ⟨priv_deallocate P s.heap addr, s.live.erase addr⟩
  | .allocation_command command limit_size preferred_size reuse_ptr sizeof_object alignof_object =>
    let answer := allocation_command P s.heap command limit_size preferred_size reuse_ptr
      sizeof_object alignof_object
    ⟨answer.heap, held s.live answer⟩
  | .allocate_many elem_bytes n_elements alignment chain =>
    let answer := allocate_many P s.heap elem_bytes n_elements alignment chain
    ⟨answer.1, answer.2 ++ s.live.diff chain⟩
  | .allocate_many_sized elem_sizes sizeof_element alignment chain =>
    let answer := allocate_many_sized P s.heap elem_sizes sizeof_element alignment chain
    ⟨answer.1, answer.2 ++ s.live.diff chain⟩
  | .deallocate_many chain => ⟨priv_deallocate_many P s.heap chain, s.live.diff chain⟩
  | .grow extra_size => ⟨grow P s.heap extra_size, s.live⟩
  | .shrink_to_fit => ⟨shrink_to_fit P s.heap, s.live⟩
  | .zero_free_memory => ⟨zero_free_memory P s.heap, s.live⟩
  | .write mem => ⟨{ s.heap with mem := mem }, s.live⟩

/-- What a client may do: it gives back, reuses and writes its own buffers, its request
    sizes do not wrap when they are padded, and what an expansion backwards, `grow` or
    `shrink_to_fit` leaves over fits blocks. -/
def Permitted (s : State) : Call → Prop
  | .allocate _ => True
  | .allocate_aligned nbytes alignment => AlignedFits P nbytes alignment
  | .deallocate addr => addr = 0 ∨ addr ∈ s.live
  | .allocation_command command limit_size preferred_size reuse_ptr sizeof_object alignof_object =>
    0 < sizeof_object ∧ (reuse_ptr = 0 ∨ reuse_ptr ∈ s.live) ∧
      CommandFits P (limit_size * sizeof_object) (preferred_size * sizeof_object) alignof_object ∧
      (reuse_ptr ≠ 0 → CommandExact P s.heap command (limit_size * sizeof_object)
        (preferred_size * sizeof_object) reuse_ptr sizeof_object alignof_object)
  | .allocate_many elem_bytes n_elements alignment chain =>
    chain.Subperm s.live ∧ ElementsFit P 0 alignment (List.replicate n_elements elem_bytes)
  | .allocate_many_sized elem_sizes sizeof_element alignment chain =>
    chain.Subperm s.live ∧ ElementsFit P alignment sizeof_element elem_sizes
  | .deallocate_many chain => chain.Subperm s.live
  | .grow extra_size =>
    s.heap.this + (s.heap.m_size + extra_size) ≤ 2 ^ 64 ∧ GrowFits P s.heap extra_size
  | .shrink_to_fit => s.heap.m_size < 2 ^ 62 ∧ (s.heap.m_allocated = 0 →
      P.BlockCtrlUnits + P.BlockCtrlUnits ≤ m_size s.heap.mem (priv_first_block P s.heap))
  | .zero_free_memory => True
  | .write mem => ∀ y, (∀ p ∈ s.live, y < p ∨ p + size P s.heap p ≤ y) → mem y = s.heap.mem y

/-- The buffers that a call gives back, may change or writes to. -/
def Names (s : State) (ptr : Nat) : Call → Prop
  | .allocate _ => False
  | .allocate_aligned _ _ => False
  | .deallocate addr => ptr = addr
  | .allocation_command _ _ _ reuse_ptr _ _ => ptr = reuse_ptr
  | .allocate_many _ _ _ chain => ptr ∈ chain
  | .allocate_many_sized _ _ _ chain => ptr ∈ chain
  | .deallocate_many chain => ptr ∈ chain
  | .grow _ => False
  | .shrink_to_fit => False
  | .zero_free_memory => False
  | .write mem => ¬ SameOn mem s.heap.mem ptr (ptr + size P s.heap ptr)

end Calls

variable {P : Traits} {h h' : Heap} {first : Nat} {blocks blocks' : List Block} {live : List Nat}

/-- What is left of a heap by a call that names some buffers: it is owned again, and
    the blocks that are not named stay as they are. -/
def Stepped (P : Traits) (h : Heap) (first : Nat) (blocks : List Block) (live : List Nat)
    (named : Nat → Prop) (t : State) : Prop :=
  ∃ blocks' gone fresh, Outcome P h t.heap first blocks blocks' gone fresh ∧
    (buffers P gone ++ t.live).Subperm (buffers P fresh ++ live) ∧
    ∀ p ∈ gone, named (priv_get_user_buffer P p.1)

/-- A call that keeps all buffers. -/
theorem Outcome.stepped (hout : Outcome P h h' first blocks blocks' [] []) (live : List Nat)
    (named : Nat → Prop) : Stepped P h first blocks live named ⟨h', live⟩ :=
  ⟨blocks', [], [], hout, List.Subperm.refl _, fun _ hp => nomatch hp⟩

/-- The buffers held after a new one. -/
theorem held_subperm (live : List Nat) (answer : Answer) (hret : answer.ret ≠ 0) :
    (held live answer).Subperm (answer.ret :: live) := by
  unfold held
  rw [if_neg hret]
  split_ifs
  · exact List.Subperm.refl _
  · exact List.Sublist.subperm (List.erase_sublist.cons_cons _)

theorem Granted.stepped {n ptr : Nat} (hgranted : Granted P h first blocks n h' ptr)
    (howned : Owned P h first blocks live) (named : Nat → Prop) (received reuse_ptr : Nat) :
    Stepped P h first blocks live named ⟨h', held live ⟨h', ptr, received, reuse_ptr⟩⟩ := by
  rcases hgranted with ⟨hret, rfl⟩ | ⟨b, u, blocks', hret, _, hop⟩
  · rw [held, if_pos hret]
    exact (Outcome.refl howned.rep howned.enclosed).stepped live named
  · refine ⟨blocks', [], _, hop.outcome howned.enclosed, ?_, fun _ hp => nomatch hp⟩
    have hheld := held_subperm live ⟨h', ptr, received, reuse_ptr⟩ (by
      rw [hret]
      exact priv_get_user_buffer_ne_zero b)
    rw [hret] at hheld ⊢
    exact hheld

/-- The buffers held after a command that may reuse the buffer of a block. -/
theorem Reused.stepped {b u : Nat} {answer : Answer}
    (hreused : Reused P h first blocks b u answer) (howned : Owned P h first blocks live)
    (hmem : priv_get_user_buffer P b ∈ live) :
    Stepped P h first blocks live (· = priv_get_user_buffer P b) ⟨answer.heap, held live answer⟩ := by
  have hne := fun x => priv_get_user_buffer_ne_zero (P := P) x
  have hnamed : ∀ p ∈ [(b, u)], priv_get_user_buffer P p.1 = priv_get_user_buffer P b := by
    intro p hp
    rw [List.mem_singleton.mp hp]
  have hperm := List.perm_cons_erase hmem
  cases hreused with
  | null hret hop _ =>
    refine ⟨_, _, _, hop.outcome howned.enclosed, ?_, hnamed⟩
    rw [held, if_pos hret]
    exact List.Subperm.refl _
  | @fresh v x w blocks' hret hop _ =>
    refine ⟨_, _, _, hop.outcome howned.enclosed, ?_, hnamed⟩
    have hheld := held_subperm live answer (by rw [hret]; exact hne x)
    rw [hret] at hheld
    exact (List.subperm_cons _).mpr hheld
  | in_place hret hreuse hop _ =>
    refine ⟨_, _, _, hop.outcome howned.enclosed, ?_, hnamed⟩
    rw [held, if_neg (by rw [hret]; exact hne b), if_neg (by rw [hreuse]; exact hne b), hret, hreuse]
    exact (hperm.symm.cons _).subperm
  | @moved x w blocks' hret _ hreuse hop =>
    refine ⟨_, _, _, hop.outcome howned.enclosed, ?_, hnamed⟩
    rw [held, if_neg (by rw [hret]; exact hne x), if_neg (by rw [hreuse]; exact hne b), hret, hreuse]
    exact ((List.Perm.swap _ _ _).trans (hperm.symm.cons _)).subperm

/-- The blocks of a chain of buffers. -/
theorem Owned.exists_chained {chain : List Nat} (howned : Owned P h first blocks live)
    (hchain : chain.Subperm live) : ∃ chained, chain = buffers P chained ∧
      (∀ p ∈ chained, LiveAt P first blocks p.1 p.2) ∧ chained.Nodup := by
  have hexists : ∀ chain : List Nat, (∀ ptr ∈ chain, ptr ∈ live) →
      ∃ chained, chain = buffers P chained ∧ ∀ p ∈ chained, LiveAt P first blocks p.1 p.2 := by
    intro chain hsubset
    induction chain with
    | nil => exact ⟨[], rfl, fun _ hp => nomatch hp⟩
    | cons ptr chain ih =>
      obtain ⟨chained, rfl, hlive⟩ := ih fun p hp => hsubset p (List.mem_cons_of_mem _ hp)
      obtain ⟨b, u, hb, rfl⟩ := howned.exists_live (hsubset ptr List.mem_cons_self)
      exact ⟨(b, u) :: chained, rfl, List.forall_mem_cons.mpr ⟨hb, hlive⟩⟩
  obtain ⟨chained, hbuffers, hlive⟩ := hexists chain fun ptr hptr => hchain.subset hptr
  refine ⟨chained, hbuffers, hlive, ?_⟩
  obtain ⟨held, hperm, hsub⟩ := hchain
  have hnodup := hperm.nodup_iff.mp (howned.nodup.sublist hsub)
  rw [hbuffers] at hnodup
  exact hnodup.of_map _

theorem chain_diff {chain live : List Nat} (hchain : chain.Subperm live) :
    (chain ++ live.diff chain).Perm live :=
  List.subperm_append_diff_self_of_count_le fun ptr _ => hchain.count_le ptr

/-- The condition of `shrink_to_fit` on the first block. -/
theorem Owned.shrink_fits (howned : Owned P h first blocks live) (hfits : h.m_allocated = 0 →
    P.BlockCtrlUnits + P.BlockCtrlUnits ≤ m_size h.mem (priv_first_block P h)) :
    ShrinkFits P blocks := by
  rintro n rfl
  have hfree : FreeAt P first [⟨n, false⟩] first n := List.mem_cons_self
  have hsize : m_size h.mem first = n := howned.rep.free_size hfree
  have hzero : h.m_allocated = 0 := by
    rw [howned.rep.allocated, usedUnits_cons]
    simp only [Bool.false_eq_true, if_false, usedUnits_nil, Nat.add_zero, Nat.zero_mul]
  rw [← howned.enclosed.first_eq, hsize] at hfits
  exact hfits hzero

section StepStepped

variable {s : State} (howned : Owned P s.heap first blocks s.live)

include howned

theorem allocation_command_stepped {command : allocation_type}
    {limit_size preferred_size reuse_ptr sizeof_object alignof_object : Nat}
    (hpermitted : Permitted P s (.allocation_command command limit_size preferred_size reuse_ptr
      sizeof_object alignof_object)) :
    let answer := allocation_command P s.heap command limit_size preferred_size reuse_ptr
      sizeof_object alignof_object
    Stepped P s.heap first blocks s.live (· = reuse_ptr) ⟨answer.heap, held s.live answer⟩ := by
  have hlt : stop P.Alignment first blocks < 2 ^ 64 := by
    have hstop := howned.enclosed.stop_lt
    omega
  obtain ⟨_, hreuse, hfits, hexact⟩ := hpermitted
  unfold allocation_command
  simp only
  split_ifs
  · exact Granted.stepped (n := 0) (Or.inl ⟨rfl, rfl⟩) howned _ _ _
  · by_cases hzero : reuse_ptr = 0
    · subst hzero
      refine Granted.stepped (n := 0) ?_ howned _ _ _
      exact howned.rep.priv_allocate_granted hlt (Nat.zero_le _) (Nat.zero_le _) fun hle => (hfits hle).2
    · obtain ⟨b, u, hlive, hb⟩ := howned.exists_live (hreuse.resolve_left hzero)
      have hreused := howned.rep.priv_allocate_reused hlt hlive hfits
        (by rw [← hb]; exact hexact hzero)
      rw [← hb] at hreused
      have hstepped := hreused.stepped howned (by rw [← hb]; exact hreuse.resolve_left hzero)
      rw [← hb] at hstepped
      exact hstepped

/-- A request for many buffers. -/
theorem priv_allocate_many_stepped {elem_sizes : List Nat} {alignment sizeof_element : Nat}
    {chain : List Nat} (hchain : chain.Subperm s.live)
    (hfits : ElementsFit P sizeof_element alignment elem_sizes) :
    let answer := priv_allocate_many P s.heap elem_sizes alignment sizeof_element chain
    Stepped P s.heap first blocks s.live (· ∈ chain) ⟨answer.1, answer.2 ++ s.live.diff chain⟩ := by
  have hlt : stop P.Alignment first blocks < 2 ^ 64 := by
    have hstop := howned.enclosed.stop_lt
    omega
  obtain ⟨chained, rfl, hchained, hnodup⟩ := howned.exists_chained hchain
  obtain ⟨blocks', used, hbuffers, hop, _⟩ :=
    howned.rep.priv_allocate_many_spec hlt hchained hnodup hfits
  refine ⟨blocks', chained, used, hop.outcome howned.enclosed, ?_, ?_⟩
  · rw [hbuffers]
    refine ((List.perm_append_comm_assoc _ _ _).trans ?_).subperm
    exact (chain_diff hchain).append_left _
  · exact fun p hp => List.mem_map_of_mem hp

theorem deallocate_many_stepped {chain : List Nat} (hchain : chain.Subperm s.live) :
    Stepped P s.heap first blocks s.live (· ∈ chain)
      ⟨priv_deallocate_many P s.heap chain, s.live.diff chain⟩ := by
  obtain ⟨chained, rfl, hchained, hnodup⟩ := howned.exists_chained hchain
  obtain ⟨blocks', hop⟩ := howned.rep.deallocate_many_operation hchained hnodup
  refine ⟨blocks', chained, [], hop.outcome howned.enclosed, (chain_diff hchain).subperm, ?_⟩
  exact fun p hp => List.mem_map_of_mem hp

theorem deallocate_stepped {addr : Nat} (haddr : addr = 0 ∨ addr ∈ s.live) :
    Stepped P s.heap first blocks s.live (· = addr)
      ⟨priv_deallocate P s.heap addr, s.live.erase addr⟩ := by
  rcases haddr with rfl | hmem
  · rw [priv_deallocate, if_pos rfl, List.erase_of_not_mem howned.not_mem_zero]
    exact ⟨blocks, [], [], Outcome.refl howned.rep howned.enclosed, List.Subperm.refl _,
      fun _ hp => nomatch hp⟩
  · obtain ⟨b, u, hlive, rfl⟩ := howned.exists_live hmem
    obtain ⟨blocks', hop⟩ := howned.rep.deallocate_operation hlive
    refine ⟨blocks', _, [], hop.outcome howned.enclosed, ?_, ?_⟩
    · exact (List.perm_cons_erase hmem).symm.subperm
    · intro p hp
      rw [List.mem_singleton.mp hp]

open Classical in
/-- A client that writes into its buffers. -/
theorem write_stepped {mem : Memory} (hpermitted : Permitted P s (.write mem)) :
    Stepped P s.heap first blocks s.live
      (fun ptr => ¬ SameOn mem s.heap.mem ptr (ptr + size P s.heap ptr))
      ⟨{ s.heap with mem := mem }, s.live⟩ := by
  obtain ⟨used, hused⟩ : ∃ used, used = (usedBlocks P.Alignment first blocks).filter fun p =>
      ¬ SameOn mem s.heap.mem (priv_get_user_buffer P p.1)
        (priv_get_user_buffer P p.1 + size P s.heap (priv_get_user_buffer P p.1)) := ⟨_, rfl⟩
  have hop : Operation P s.heap { s.heap with mem := mem } first blocks blocks used used := by
    refine Operation.user_write howned.rep used fun y hy => ?_
    by_cases hin : ∀ b u, LiveAt P first blocks b u →
        y < b + P.AllocatedCtrlBytes ∨ b + u * P.Alignment + UsableByPreviousChunk ≤ y
    · refine hpermitted y fun ptr hptr => ?_
      obtain ⟨b, u, hlive, rfl⟩ := howned.exists_live hptr
      rw [howned.rep.live_buffer hlive]
      exact hin b u hlive
    · push Not at hin
      obtain ⟨b, u, hlive, hlo, hhi⟩ := hin
      by_contra hne
      have hmem : (b, u) ∈ used := by
        rw [hused, List.mem_filter]
        refine ⟨(mem_usedBlocks _).mpr hlive, decide_eq_true ?_⟩
        rw [howned.rep.live_buffer hlive]
        exact fun hsame => hne (hsame y hlo hhi)
      rcases hy b u hmem hlive with hbefore | hbehind
      · omega
      · omega
  refine ⟨blocks, used, used, hop.outcome howned.enclosed, List.Subperm.refl _, ?_⟩
  intro p hp
  rw [hused, List.mem_filter] at hp
  exact of_decide_eq_true hp.2

/-- Every permitted call leaves a heap of the buffers held, and spares those that it
    does not name. -/
theorem step_stepped {call : Call} (hpermitted : Permitted P s call) :
    Stepped P s.heap first blocks s.live (Names P s · call) (step P s call) := by
  have hlt : stop P.Alignment first blocks < 2 ^ 64 := by
    have hstop := howned.enclosed.stop_lt
    omega
  cases call with
  | allocate nbytes =>
    exact (howned.rep.allocate_new_granted nbytes).stepped howned _ 0 0
  | allocate_aligned nbytes alignment =>
    exact (howned.rep.allocate_aligned_granted hlt hpermitted).stepped howned _ 0 0
  | deallocate addr => exact deallocate_stepped howned hpermitted
  | allocation_command command limit_size preferred_size reuse_ptr sizeof_object alignof_object =>
    exact allocation_command_stepped howned hpermitted
  | allocate_many elem_bytes n_elements alignment chain =>
    exact priv_allocate_many_stepped howned hpermitted.1 hpermitted.2
  | allocate_many_sized elem_sizes sizeof_element alignment chain =>
    exact priv_allocate_many_stepped howned hpermitted.1 hpermitted.2
  | deallocate_many chain => exact deallocate_many_stepped howned hpermitted
  | grow extra_size =>
    obtain ⟨blocks', hout, _⟩ := howned.rep.grow_outcome howned.enclosed hpermitted.1 hpermitted.2
    exact hout.stepped s.live _
  | shrink_to_fit =>
    obtain ⟨blocks', hout, _⟩ := howned.rep.shrink_to_fit_outcome howned.enclosed hpermitted.1
      (howned.shrink_fits hpermitted.2)
    exact hout.stepped s.live _
  | zero_free_memory =>
    exact (howned.rep.zero_free_memory_operation.outcome howned.enclosed).stepped _ _
  | write mem => exact write_stepped howned hpermitted

end StepStepped

/-- The states of the runs from a construction, with any permitted calls in any order. -/
abbrev Reached (P : Traits) (this segment_size extra_hdr_bytes : Nat) (mem : Memory) :
    State → Prop :=
  Reaches (fun s call => some (step P s call)) (Permitted P)
    ⟨construct P this segment_size extra_hdr_bytes mem, []⟩

section Reached

variable {this segment_size extra_hdr_bytes : Nat} {mem : Memory} {s t : State}

/-- In every state of every run the blocks tile the segment, with their tags, the tree
    and the counter of allocated bytes as they say, and the buffers held are buffers
    of different blocks in use. -/
theorem owned_in_every_run (hmem : Constructible P this segment_size extra_hdr_bytes)
    (hrun : Reached P this segment_size extra_hdr_bytes mem s) :
    ∃ blocks, Owned P s.heap
      (this + priv_first_block_offset_from_this P this extra_hdr_bytes) blocks s.live := by
  refine hrun.invariant (P := fun s => ∃ blocks, Owned P s.heap _ blocks s.live) ?_ ?_
  · obtain ⟨u, hrep, henclosed⟩ := construct_rep hmem mem
    exact ⟨_, hrep, henclosed, List.nil_subperm⟩
  · rintro s call t ⟨blocks, howned⟩ hpermitted hstep
    cases Option.some.inj hstep
    obtain ⟨blocks', gone, fresh, hout, hlive, _⟩ := step_stepped howned hpermitted
    exact ⟨blocks', hout.owned howned hlive⟩

/-- The pointer to reuse that a command reports. -/
theorem priv_allocate_reuse_ptr (P : Traits) (h : Heap) (command : allocation_type)
    (limit_size preferred_size reuse_ptr sizeof_object alignof_object : Nat) :
    (priv_allocate P h command limit_size preferred_size reuse_ptr sizeof_object
      alignof_object).reuse_ptr = 0 ∨
    (priv_allocate P h command limit_size preferred_size reuse_ptr sizeof_object
      alignof_object).reuse_ptr = reuse_ptr := by
  have hminimum : ∀ h alignof_object received, (expand_minimum P h command limit_size preferred_size
      reuse_ptr sizeof_object alignof_object received).reuse_ptr = 0 ∨
      (expand_minimum P h command limit_size preferred_size reuse_ptr sizeof_object alignof_object
        received).reuse_ptr = reuse_ptr := by
    intro h alignof_object received
    unfold expand_minimum
    split_ifs
    · exact Or.inr rfl
    · exact Or.inl rfl
  have hor : ∀ h alignof_object received, (allocate_or_expand P h command limit_size preferred_size
      reuse_ptr sizeof_object alignof_object received).reuse_ptr = 0 ∨
      (allocate_or_expand P h command limit_size preferred_size reuse_ptr sizeof_object alignof_object
        received).reuse_ptr = reuse_ptr := by
    intro h alignof_object received
    unfold allocate_or_expand
    split_ifs
    · exact Or.inr rfl
    · cases best_fit P h limit_size preferred_size with
      | some answer => exact Or.inl rfl
      | none => exact hminimum _ _ _
    · exact hminimum _ _ _
  unfold priv_allocate
  simp only
  split_ifs
  · exact Or.inr rfl
  · exact Or.inr rfl
  · exact Or.inr rfl
  · exact Or.inl rfl
  · exact Or.inr rfl
  · exact hor _ _ _
  · exact hor _ _ _

theorem mem_held {ptr : Nat} {answer : Answer} (hptr : ptr ∈ live)
    (hreuse : answer.reuse_ptr = 0 ∨ ptr ≠ answer.reuse_ptr) : ptr ∈ held live answer := by
  unfold held
  split_ifs with hret hzero
  · exact hptr
  · exact List.mem_cons_of_mem _ hptr
  · exact List.mem_cons_of_mem _ ((List.mem_erase_of_ne (hreuse.resolve_left hzero)).mpr hptr)

/-- A buffer that a call does not name is still held. -/
theorem step_live {ptr : Nat} {call : Call} (hptr : ptr ∈ s.live) (hnot : ¬ Names P s ptr call) :
    ptr ∈ (step P s call).live := by
  cases call with
  | allocate nbytes => exact mem_held hptr (Or.inl rfl)
  | allocate_aligned nbytes alignment => exact mem_held hptr (Or.inl rfl)
  | deallocate addr => exact (List.mem_erase_of_ne hnot).mpr hptr
  | allocation_command command limit_size preferred_size reuse_ptr sizeof_object alignof_object =>
    refine mem_held hptr ?_
    have hreuse := priv_allocate_reuse_ptr P s.heap command (limit_size * sizeof_object)
      (preferred_size * sizeof_object) reuse_ptr sizeof_object alignof_object
    unfold allocation_command
    simp only
    split_ifs
    · exact Or.inl rfl
    · refine hreuse.imp_right fun heq => ?_
      rw [heq]
      exact hnot
  | allocate_many elem_bytes n_elements alignment chain =>
    exact List.mem_append_right _ (List.mem_diff_of_mem hptr hnot)
  | allocate_many_sized elem_sizes sizeof_element alignment chain =>
    exact List.mem_append_right _ (List.mem_diff_of_mem hptr hnot)
  | deallocate_many chain => exact List.mem_diff_of_mem hptr hnot
  | grow extra_size =>
    rw [step]
    exact hptr
  | shrink_to_fit =>
    rw [step]
    exact hptr
  | zero_free_memory =>
    rw [step]
    exact hptr
  | write mem =>
    rw [step]
    exact hptr

/-- A call that does not name a buffer keeps its size and its bytes. -/
theorem step_keeps {blocks : List Block} (howned : Owned P s.heap first blocks s.live) {ptr : Nat}
    {call : Call} (hpermitted : Permitted P s call) (hptr : ptr ∈ s.live)
    (hnot : ¬ Names P s ptr call) :
    size P (step P s call).heap ptr = size P s.heap ptr ∧
      SameOn (step P s call).heap.mem s.heap.mem ptr (ptr + size P s.heap ptr) := by
  obtain ⟨blocks', gone, fresh, hout, _, hnamed⟩ := step_stepped howned hpermitted
  obtain ⟨b, u, hlive, rfl⟩ := howned.exists_live hptr
  have hgone : (b, u) ∉ gone := fun hmem => hnot (hnamed _ hmem)
  have hbuffer := howned.rep.live_buffer hlive
  have hbuffer' := hout.rep.live_buffer (hout.live hlive hgone)
  refine ⟨by omega, ?_⟩
  rw [hbuffer]
  exact hout.kept b u hlive hgone

/-- In every run a buffer stays held, with the same size and the same bytes, until a
    call names it: gives it back, reuses it, chains it or writes to it. -/
theorem buffer_untouched (hmem : Constructible P this segment_size extra_hdr_bytes)
    (hreached : Reached P this segment_size extra_hdr_bytes mem s) {ptr : Nat} (hptr : ptr ∈ s.live)
    (hrun : Reaches (fun s call => some (step P s call))
      (fun s call => Permitted P s call ∧ ¬ Names P s ptr call) s t) :
    ptr ∈ t.live ∧ size P t.heap ptr = size P s.heap ptr ∧
      SameOn t.heap.mem s.heap.mem ptr (ptr + size P s.heap ptr) := by
  obtain ⟨first, hfirst⟩ : ∃ first, first =
    this + priv_first_block_offset_from_this P this extra_hdr_bytes := ⟨_, rfl⟩
  have hstart := owned_in_every_run hmem hreached
  rw [← hfirst] at hstart
  suffices hall : (∃ blocks, Owned P t.heap first blocks t.live) ∧ ptr ∈ t.live ∧
      size P t.heap ptr = size P s.heap ptr ∧
      SameOn t.heap.mem s.heap.mem ptr (ptr + size P s.heap ptr) from hall.2
  refine hrun.invariant (P := fun t => (∃ blocks, Owned P t.heap first blocks t.live) ∧
    ptr ∈ t.live ∧ size P t.heap ptr = size P s.heap ptr ∧
      SameOn t.heap.mem s.heap.mem ptr (ptr + size P s.heap ptr)) ?_ ?_
  · exact ⟨hstart, hptr, rfl, fun _ _ _ => rfl⟩
  · rintro t call t' ⟨⟨blocks, howned⟩, hlive, hsize, hsame⟩ ⟨hpermitted, hnot⟩ hstep
    cases Option.some.inj hstep
    obtain ⟨blocks', gone, fresh, hout, hsub, _⟩ := step_stepped howned hpermitted
    obtain ⟨hsize', hsame'⟩ := step_keeps howned hpermitted hlive hnot
    refine ⟨⟨blocks', hout.owned howned hsub⟩, step_live hlive hnot, hsize'.trans hsize, ?_⟩
    rw [hsize] at hsame'
    exact hsame'.trans hsame

/-- Buffers are aligned and lie in the segment behind its header; two of them do not
    meet. -/
theorem Owned.buffers_apart (howned : Owned P h first blocks live) :
    (∀ p ∈ live, P.Alignment ∣ p ∧ h.this + P.sizeof_rbtree_best_fit + h.m_extra_hdr_bytes ≤ p ∧
      p + size P h p ≤ h.this + h.m_size) ∧
    ∀ p ∈ live, ∀ q ∈ live, p ≠ q → p + size P h p ≤ q ∨ q + size P h q ≤ p := by
  have hctrl := P.AllocatedCtrlBytes_ge
  have hdvd : P.Alignment ∣ P.AllocatedCtrlBytes := by
    rw [← P.AllocatedCtrlUnits_mul]
    exact Nat.dvd_mul_left _ _
  refine ⟨?_, ?_⟩
  · intro p hp
    obtain ⟨b, u, hlive, rfl⟩ := howned.exists_live hp
    obtain ⟨hlo, hhi⟩ := mem_placed_bounds _ hlive
    change b + u * P.Alignment ≤ _ at hhi
    obtain ⟨L, R, -, hb⟩ := exists_of_mem_placed _ hlive
    have hheader := howned.enclosed.header_le
    have hend := howned.enclosed.end_le
    have hge := P.EndCtrlBlockBytes_ge
    rw [howned.rep.live_buffer hlive, priv_get_user_buffer]
    unfold UsableByPreviousChunk
    refine ⟨Nat.dvd_add ?_ hdvd, by omega, by omega⟩
    rw [hb]
    exact Nat.dvd_add howned.rep.aligned (Nat.dvd_mul_left _ _)
  · intro p hp q hq hne
    obtain ⟨b, u, hb, rfl⟩ := howned.exists_live hp
    obtain ⟨c, v, hc, rfl⟩ := howned.exists_live hq
    rw [howned.rep.live_buffer hb, howned.rep.live_buffer hc]
    unfold priv_get_user_buffer UsableByPreviousChunk
    rcases placed_apart _ hb hc with ⟨rfl, _⟩ | hapart | hapart
    · exact absurd rfl hne
    · change b + u * P.Alignment ≤ c at hapart
      exact Or.inl (by omega)
    · change c + v * P.Alignment ≤ b at hapart
      exact Or.inr (by omega)

/-- In every state of every run the buffers held are aligned, lie in the segment behind
    its header and do not meet each other. -/
theorem buffers_apart_in_every_run (hmem : Constructible P this segment_size extra_hdr_bytes)
    (hrun : Reached P this segment_size extra_hdr_bytes mem s) :
    (∀ p ∈ s.live, P.Alignment ∣ p ∧
      s.heap.this + P.sizeof_rbtree_best_fit + s.heap.m_extra_hdr_bytes ≤ p ∧
      p + size P s.heap p ≤ s.heap.this + s.heap.m_size) ∧
    ∀ p ∈ s.live, ∀ q ∈ s.live, p ≠ q →
      p + size P s.heap p ≤ q ∨ q + size P s.heap q ≤ p := by
  obtain ⟨blocks, howned⟩ := owned_in_every_run hmem hrun
  exact howned.buffers_apart

end Reached

/-- The hooks of a tree that leans to the right, each with raw pointers to the parent,
    to no left child and to the right child. -/
def raw_hooks (m : Memory) (parent : Nat) : List Nat → Memory
  | [] => m
  | n :: nodes =>
    raw_hooks (((m.store (n + 16) 8 parent).store (n + 24) 8 0).store (n + 32) 8 (nodes.headD 0)) n
      nodes

theorem raw_hooks_frame (m : Memory) (parent : Nat) (nodes : List Nat) (b : Nat)
    (hb : ∀ n ∈ nodes, b < n + 16 ∨ n + 40 ≤ b) : raw_hooks m parent nodes b = m b := by
  induction nodes generalizing m parent with
  | nil => rfl
  | cons n nodes ih =>
    have hn := hb n List.mem_cons_self
    rw [raw_hooks, ih _ _ fun k hk => hb k (List.mem_cons_of_mem n hk),
      store_outside _ _ (by omega), store_outside _ _ (by omega), store_outside _ _ (by omega)]

/-- The links of a chain of raw pointers, the last one null. -/
def raw_links (m : Memory) : List Nat → Memory
  | [] => m
  | p :: chain => raw_links (m.store p 8 (chain.headD 0)) chain

theorem raw_links_frame (m : Memory) (chain : List Nat) (b : Nat)
    (hb : ∀ p ∈ chain, b < p ∨ p + 8 ≤ b) : raw_links m chain b = m b := by
  induction chain generalizing m with
  | nil => rfl
  | cons p chain ih =>
    rw [raw_links, ih _ fun q hq => hb q (List.mem_cons_of_mem p hq)]
    exact store_outside m _ (hb p List.mem_cons_self)

theorem log2_sixteen_ge : 3 ≤ 4 := by decide

theorem log2_sixteen_lt : 4 < 64 := by decide

/-- Raw pointers, blocks aligned to 16 bytes and no mutex. The tree starts at address
    4096. -/
def raw_pointers : Traits where
  log2_alignment := 4
  alignment_ge := log2_sixteen_ge
  alignment_lt := log2_sixteen_lt
  sizeof_rbtree_best_fit := 56
  write_hooks := fun m nodes => raw_hooks m 4096 nodes
  write_hooks_frame := fun m nodes b hb => raw_hooks_frame m 4096 nodes b hb
  write_links := raw_links
  write_links_frame := raw_links_frame

/-- A page of cleared memory at address 4096. -/
theorem page_constructible : Constructible raw_pointers 4096 4096 0 where
  this_pos := by decide
  segment_le := by decide
  header_le := by decide
  room := by decide

/-- A new heap on the page, and an allocation from it. -/
def page_state : State :=
  ⟨construct raw_pointers 4096 4096 0 fun _ => 0, []⟩

def page_allocated : State :=
  step raw_pointers page_state (.allocate 100)

theorem page_allocated_reached : Reached raw_pointers 4096 4096 0 (fun _ => 0) page_allocated :=
  .tail .refl (a := .allocate 100) trivial rfl

def page_twice_allocated : State :=
  step raw_pointers page_allocated (.allocate 100)

theorem page_twice_reached :
    Reached raw_pointers 4096 4096 0 (fun _ => 0) page_twice_allocated :=
  .tail page_allocated_reached (a := .allocate 100) trivial rfl

theorem buffer_untouched_by_allocation :
    4176 ∈ (step raw_pointers page_allocated (.allocate 8)).live :=
  (buffer_untouched page_constructible page_allocated_reached (by decide)
    (.tail .refl (a := .allocate 8) ⟨trivial, nofun⟩ rfl)).1

theorem buffers_apart_after_allocation :
    4176 + size raw_pointers page_allocated.heap 4176 ≤ 4096 + 4096 :=
  ((buffers_apart_in_every_run page_constructible page_allocated_reached).1 4176 (by decide)).2.2

end interprocess.rbtree_best_fit
