import Interprocess.MemAlgo.SimpleSeqFit.Filling

namespace interprocess.ipcdetail.simple_seq_fit_impl

open Memory Tiling LinkedList

variable {P : Traits} {h : Heap} {blocks : List Block} {stale live chain : List Nat}
  {sized : List (Nat × Nat)} {x : Nat} {sizeof_element alignment : Nat}

/-- The padded requests for single elements do not overflow. -/
def ElementsFit (P : Traits) (sizeof_element alignment : Nat) (elem_sizes : List Nat) : Prop :=
  P.Alignment < alignment → ∀ elem_size ∈ elem_sizes,
    RequestFits P (elem_units P sizeof_element elem_size * P.Alignment - P.AllocatedCtrlBytes)
      alignment

/-- The block a round receives has room for the next element. -/
theorem priv_allocate_round (hholds : Holds P h live sized)
    (hsized : ∀ y v, (y, v) ∈ sized → priv_get_user_buffer P y ∈ live) (hlt : alignment < 2 ^ 64)
    {elem_size : Nat} {rest : List Nat}
    (hfits : ElementsFit P sizeof_element alignment (elem_size :: rest)) (total : Nat) :
    ∃ answer, priv_allocate P h ⟨true, false, false, false, false⟩
        (elem_units P sizeof_element elem_size * P.Alignment - P.AllocatedCtrlBytes)
        (size_sub (total * P.Alignment % 2 ^ 64) P.AllocatedCtrlBytes) 0 alignment = some answer ∧
      Granted P live sized (elem_units P sizeof_element elem_size) answer.heap answer.ret := by
  obtain ⟨k, _, hk, hunits, _⟩ := elem_units_eq P sizeof_element elem_size
  have hbytes : elem_units P sizeof_element elem_size * P.Alignment - P.AllocatedCtrlBytes =
      k * P.Alignment := by
    rw [hunits, Nat.add_mul, P.BlockCtrlUnits_mul]
    exact Nat.add_sub_cancel_left _ _
  have hpreferred : P.Alignment ∣ size_sub (total * P.Alignment % 2 ^ 64) P.AllocatedCtrlBytes := by
    refine dvd_mod_two_pow (Nat.le_of_lt P.alignment_lt) rfl ?_
    refine Nat.dvd_sub (Nat.dvd_add ?_ P.Alignment_dvd) (dvd_ct_rounded_size _ _)
    exact dvd_mod_two_pow (Nat.le_of_lt P.alignment_lt) rfl (Nat.dvd_mul_left _ _)
  have hplt : size_sub (total * P.Alignment % 2 ^ 64) P.AllocatedCtrlBytes < 2 ^ 64 :=
    Nat.mod_lt _ (by decide)
  have hfits' := fun hgt => hfits hgt elem_size List.mem_cons_self
  rw [hbytes] at hfits' ⊢
  obtain ⟨q, hq⟩ := hpreferred
  rw [hq, Nat.mul_comm P.Alignment q] at hplt ⊢
  simp only [priv_allocate, Bool.not_true, Bool.not_false, Bool.false_and, Bool.false_eq_true,
    ↓reduceIte, ne_eq, not_true_eq_false, false_and]
  split_ifs with hless
  · exact ⟨_, rfl, Or.inl ⟨rfl, hholds⟩⟩
  · have hkq : k ≤ q := Nat.le_of_mul_le_mul_right (Nat.not_lt.mp hless) P.Alignment_pos
    have halignment : max alignment P.Alignment < 2 ^ 64 :=
      Nat.max_lt.mpr ⟨hlt, Nat.pow_lt_pow_right (by decide) P.alignment_lt⟩
    obtain ⟨answer, hanswer, hgranted, _⟩ := allocate_if_new_granted
      (n := elem_units P sizeof_element elem_size) hholds hsized
      (by rw [ceil_units_mul hk]; omega) (by rw [ceil_units_mul hplt]; omega) halignment (by
        intro hgt
        have hlarge : P.Alignment < alignment := by omega
        rw [Nat.max_eq_left (Nat.le_of_lt hlarge)]
        exact hfits' hlarge) true 0 0
    exact ⟨answer, hanswer, hgranted⟩

theorem allocate_rounds_cons (fuel total : Nat) (elem_size : Nat) (rest : List Nat) :
    allocate_rounds P sizeof_element alignment (fuel + 1) ⟨h, total, chain, elem_size :: rest⟩ =
      (priv_allocate P h ⟨true, false, false, false, false⟩
        (elem_units P sizeof_element elem_size * P.Alignment - P.AllocatedCtrlBytes)
        (size_sub (total * P.Alignment % 2 ^ 64) P.AllocatedCtrlBytes) 0 alignment).bind
      fun answer =>
        if answer.ret = 0 then some ⟨answer.heap, total, chain, elem_size :: rest⟩
        else (fill P sizeof_element answer.heap (priv_get_block P answer.ret) 0
          (m_size answer.heap.mem (priv_get_block P answer.ret)) total chain
            (elem_size :: rest)).bind (allocate_rounds P sizeof_element alignment fuel) := by
  have hunits : (if sizeof_element = 0 then elem_units P 0 elem_size
      else priv_get_total_units P (elem_bytes sizeof_element elem_size)) =
        elem_units P sizeof_element elem_size := by
    split_ifs with hzero
    · rw [hzero]
    · obtain ⟨k, _, _, hunits, htotal⟩ := elem_units_eq P sizeof_element elem_size
      rw [hunits, htotal]
  rw [allocate_rounds]
  simp only [hunits]
  rfl

/-- The rounds fill the elements in their order, until memory runs out. -/
theorem allocate_rounds_spec (fuel : Nat) (f : Filling) (hfuel : f.rest.length ≤ fuel)
    (hholds : Holds P f.heap live sized)
    (hsized : ∀ y v, (y, v) ∈ sized → priv_get_user_buffer P y ∈ live)
    (hroom : ChainRoom P sized f.chain) (hlt : alignment < 2 ^ 64)
    (hfits : ElementsFit P sizeof_element alignment f.rest) :
    ∃ f' added, allocate_rounds P sizeof_element alignment fuel f = some f' ∧
      Filled P sizeof_element live sized f.chain f.rest added f' := by
  induction fuel generalizing f live sized with
  | zero =>
    have hnil := List.length_eq_zero_iff.mp (Nat.le_zero.mp hfuel)
    refine ⟨f, [], ?_, Filled.refl sizeof_element hholds⟩
    rw [allocate_rounds, hnil]
  | succ fuel ih =>
    obtain ⟨h, total, chain, rest⟩ := f
    cases rest with
    | nil => exact ⟨_, [], by rw [allocate_rounds], Filled.refl sizeof_element hholds⟩
    | cons elem_size rest =>
      obtain ⟨answer, hanswer, hgranted⟩ := priv_allocate_round hholds hsized hlt hfits total
      rw [allocate_rounds_cons, hanswer, Option.bind_some]
      rcases hgranted with ⟨hnull, hholds'⟩ | ⟨L, w, R, hret, hw, howned⟩
      · rw [if_pos hnull]
        exact ⟨_, [], rfl, Filled.refl (f := ⟨answer.heap, total, chain, elem_size :: rest⟩)
          sizeof_element hholds'⟩
      · rw [if_neg (hret ▸ user_buffer_ne_zero P _)]
        have hsize : m_size answer.heap.mem (stop P.Alignment (first_block P answer.heap) L) = w :=
          congrArg block_ctrl.m_size (howned.tiles.mid_used_ctrl List.not_mem_nil)
        rw [hret] at howned ⊢
        rw [priv_get_block_user_buffer, hsize]
        obtain ⟨f, added, hfill, hne, hfilled⟩ := fill_spec rest 0 total
          (howned.weaken _) hsized hroom hw
        rw [Nat.zero_add] at hfill
        rw [hfill, Option.bind_some]
        obtain ⟨elems, hrest, hunits⟩ := hfilled.elements
        have hlength : f.rest.length ≤ fuel := by
          have hadded := List.length_pos_of_ne_nil hne
          have heq := congrArg List.length hrest
          rw [List.length_append, hunits.length_eq] at heq
          change (elem_size :: rest).length ≤ fuel + 1 at hfuel
          omega
        obtain ⟨f', added', hanswer', hfilled'⟩ := ih f hlength hfilled.holds
          (sized_live_append added hsized) (hfilled.chain_room hroom) fun hgt e he =>
            hfits hgt e (hrest ▸ List.mem_append_right _ he)
        refine ⟨f', added ++ added', hanswer', ?_⟩
        rw [hfilled.chain_eq] at hfilled'
        change Filled P sizeof_element live sized chain (elem_size :: rest) _ f'
        rw [hrest]
        exact Filled.prepend hunits hfilled'

/-- The buffers of a chain and the other ones. -/
theorem perm_append_diff (hchain : chain.Subperm live) : (chain ++ live.diff chain).Perm live := by
  induction chain generalizing live with
  | nil => exact List.Perm.refl _
  | cons ptr chain ih =>
    have hrest := hchain.erase ptr
    rw [List.erase_cons_head] at hrest
    rw [List.diff_cons, List.cons_append]
    refine ((ih hrest).cons ptr).trans ?_
    exact (List.perm_cons_erase (hchain.subset List.mem_cons_self)).symm

theorem diff_append_added (added chain live : List Nat) :
    (added ++ live).diff (chain ++ added) = live.diff chain := by
  have hadded : (added ++ live).diff added = live := by
    induction added with
    | nil => rfl
    | cons ptr added ih => rw [List.cons_append, List.diff_cons, List.erase_cons_head, ih]
  rw [List.Perm.diff_left _ List.perm_append_comm, List.diff_append, hadded]

/-- The units of every allocated block. -/
def used_blocks (P : Traits) (first : Nat) (blocks : List Block) : List (Nat × Nat) :=
  (placed P.Alignment first blocks).filterMap fun p => if p.2.used then some (p.1, p.2.units) else none

theorem mem_used_blocks {first v : Nat} :
    (x, v) ∈ used_blocks P first blocks ↔
      (x, (⟨v, true⟩ : Block)) ∈ placed P.Alignment first blocks := by
  simp only [used_blocks, List.mem_filterMap]
  constructor
  · rintro ⟨⟨y, ⟨u, used⟩⟩, hy, hsome⟩
    cases used with
    | false => cases hsome
    | true =>
      cases hsome
      exact hy
  · intro hx
    exact ⟨_, hx, rfl⟩

/-- A buffer with 8 bytes has room for a link. -/
theorem Owned.room_of_size {ptr : Nat} (howned : Owned P h blocks [] live sized) (hptr : ptr ∈ live)
    (hsize : 8 ≤ size P h ptr) :
    ∃ x v, (x, v) ∈ used_blocks P (first_block P h) blocks ∧ ptr = priv_get_user_buffer P x ∧
      P.BlockCtrlUnits < v := by
  obtain ⟨L, u, R, rfl, rfl⟩ := howned.exists_block hptr
  refine ⟨_, u, mem_used_blocks.mpr (mem_placed_mid _ _ _ L R), rfl, ?_⟩
  have hu : m_size h.mem (stop P.Alignment (first_block P h) L) = u :=
    congrArg block_ctrl.m_size (howned.tiles.mid_used_ctrl List.not_mem_nil)
  have hlt := howned.tiles.mid_stop_lt
  have hule : P.BlockCtrlUnits ≤ u := howned.tiles.sizes ⟨u, true⟩ (by simp)
  have hbytes := bytes_ge hule
  rw [size, priv_get_block_user_buffer, get_user_bytes, hu, Nat.mod_eq_of_lt (by omega),
    size_sub_of_le hbytes (by omega)] at hsize
  refine Nat.lt_of_le_of_ne hule ?_
  rintro rfl
  rw [P.BlockCtrlUnits_mul] at hsize
  omega

theorem Owned.chain_room (howned : Owned P h blocks [] live sized) (hchain : chain.Subperm live)
    (hsize : ∀ p ∈ chain, 8 ≤ size P h p) :
    ChainRoom P (used_blocks P (first_block P h) blocks) chain :=
  fun p hp => howned.room_of_size (hchain.subset hp) (hsize p hp)

/-- The units of all blocks are known. -/
theorem Owned.with_used_blocks (howned : Owned P h blocks stale live sized) :
    Owned P h blocks stale live (used_blocks P (first_block P h) blocks) ∧
      ∀ y v, (y, v) ∈ used_blocks P (first_block P h) blocks → priv_get_user_buffer P y ∈ live := by
  refine ⟨{ howned with sized_placed := fun y v hy => mem_used_blocks.mp hy }, ?_⟩
  intro y v hy
  refine howned.live_perm.mem_iff.mpr (List.mem_map.mpr ⟨y, ?_, rfl⟩)
  exact (mem_useds _).mpr ⟨v, mem_used_blocks.mp hy⟩

/-- The elements that `priv_allocate_many` sees. -/
theorem ElementsFit.uniform {elem_sizes : List Nat}
    (hfits : ElementsFit P sizeof_element alignment elem_sizes) :
    ElementsFit P sizeof_element alignment
      (if sizeof_element = 0 then elem_sizes.map fun _ => elem_sizes.headD 0 else elem_sizes) := by
  split_ifs
  · intro hgt elem_size hmem
    obtain ⟨e, he, rfl⟩ := List.mem_map.mp hmem
    cases elem_sizes with
    | nil => cases he
    | cons first rest => exact hfits hgt first List.mem_cons_self
  · exact hfits

/-- A multiple allocation leaves the buffers of the returned chain and those that
    were not in the chain before. -/
theorem priv_allocate_many_holds (hholds : Holds P h live []) (hchain : chain.Subperm live)
    (hsize : ∀ p ∈ chain, 8 ≤ size P h p) (hlt : alignment < 2 ^ 64) {elem_sizes : List Nat}
    (hfits : ElementsFit P sizeof_element alignment elem_sizes) :
    ∃ h' chain', priv_allocate_many P h elem_sizes alignment sizeof_element chain =
        some (h', chain') ∧ Holds P h' (chain' ++ live.diff chain) [] := by
  obtain ⟨blocks, howned⟩ := hholds
  have hroom := howned.chain_room hchain hsize
  obtain ⟨howned', hsized⟩ := howned.with_used_blocks
  have hfits' := hfits.uniform
  simp only [priv_allocate_many]
  generalize (if sizeof_element = 0 then elem_sizes.map fun _ => elem_sizes.headD 0
    else elem_sizes) = elems at *
  split_ifs with htotal
  · obtain ⟨f, added, hanswer, hfilled⟩ := allocate_rounds_spec _
      ⟨h, total_request_units P sizeof_element elems, chain, elems⟩ (Nat.le_refl _)
      ⟨blocks, howned'⟩ hsized hroom hlt hfits'
    have hholds : Holds P f.heap (buffers P added ++ live) [] :=
      hfilled.holds.congr (List.Perm.refl _) fun _ hp => nomatch hp
    have heq : f.chain = chain ++ buffers P added := hfilled.chain_eq
    have hsubperm : f.chain.Subperm (buffers P added ++ live) := by
      rw [heq, List.perm_append_comm.subperm_left]
      exact (List.subperm_append_right _).mpr hchain
    simp only [hanswer, Option.bind_eq_bind, Option.bind_some]
    split_ifs with hrest
    · obtain ⟨h', hanswer', hholds'⟩ := deallocate_many_holds hholds hsubperm
      rw [heq, diff_append_added] at hholds'
      exact ⟨h', [], by rw [hanswer']; rfl, hholds'⟩
    · refine ⟨f.heap, f.chain, rfl, hholds.congr ?_ fun _ hp => nomatch hp⟩
      have hperm := perm_append_diff hsubperm
      rwa [heq, diff_append_added, ← heq] at hperm
  · exact ⟨h, chain, rfl, blocks, howned.perm_live (perm_append_diff hchain)⟩

end interprocess.ipcdetail.simple_seq_fit_impl
