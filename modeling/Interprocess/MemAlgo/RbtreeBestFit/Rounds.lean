import Interprocess.MemAlgo.RbtreeBestFit.Filling

namespace interprocess.rbtree_best_fit

open ipcdetail Memory Tiling

variable {P : Traits} {h h' : Heap} {first n : Nat} {blocks blocks' : List Block}
  {chained added : List (Nat × Nat)} {sizeof_element alignment elem_size : Nat}

/-- The padded sizes of the elements do not wrap. -/
def ElementsFit (P : Traits) (sizeof_element alignment : Nat) (elem_sizes : List Nat) : Prop :=
  ∀ elem_size ∈ elem_sizes, elem_units P sizeof_element elem_size * P.Alignment < 2 ^ 64 ∧
    (P.Alignment < alignment →
      AlignedFits P (user_bytes P (elem_units P sizeof_element elem_size)) alignment)

theorem ElementsFit.mono {elem_sizes elem_sizes' : List Nat}
    (hfits : ElementsFit P sizeof_element alignment elem_sizes)
    (hsubset : ∀ e ∈ elem_sizes', e ∈ elem_sizes) :
    ElementsFit P sizeof_element alignment elem_sizes' :=
  fun e he => hfits e (hsubset e he)

/-- A link needs no more than the smallest block. -/
theorem elem_units_eq (P : Traits) (sizeof_element elem_size : Nat) :
    elem_units P sizeof_element elem_size =
      priv_get_total_units P (elem_bytes sizeof_element elem_size) := by
  have hctrl := P.AllocatedCtrlUnits_le
  have hzero := get_rounded_size_mul (n := 0) P.Alignment_pos P.Alignment_dvd
    (by rw [Nat.zero_mul]; decide)
  have hlink : priv_get_total_units P 8 = P.BlockCtrlUnits := by
    unfold priv_get_total_units
    simp only [UsableByPreviousChunk, Nat.max_self, Nat.sub_self]
    rw [Nat.zero_mul] at hzero
    rw [hzero, Nat.zero_div, Nat.zero_add, Nat.max_eq_right hctrl]
  rw [elem_units, hlink]
  exact Nat.max_eq_right (priv_get_total_units_ge P _)

section Sizes

variable (hn : P.BlockCtrlUnits ≤ n) (hlt : n * P.Alignment < 2 ^ 64)

include hn hlt

theorem user_bytes_lt_of_units : user_bytes P n < 2 ^ 64 := by
  have hbytes := user_bytes_add (P := P) (Nat.le_trans P.AllocatedCtrlUnits_le hn)
  have hge := P.AllocatedCtrlBytes_ge
  unfold UsableByPreviousChunk at hbytes
  omega

/-- The request for a block of `n` units. -/
theorem min_allocation_eq :
    size_sub (n * P.Alignment % 2 ^ 64) (P.AllocatedCtrlBytes - UsableByPreviousChunk) =
      user_bytes P n := by
  have hbytes := user_bytes_add (P := P) (Nat.le_trans P.AllocatedCtrlUnits_le hn)
  have hge := P.AllocatedCtrlBytes_ge
  have huser := user_bytes_ge (P := P) n
  unfold UsableByPreviousChunk at *
  rw [Nat.mod_eq_of_lt hlt, size_sub_of_le (by omega) hlt]
  omega

theorem min_units_user_bytes : min_units P (user_bytes P n) = n := by
  have hctrl := P.AllocatedCtrlUnits_le
  have hle : (n - P.AllocatedCtrlUnits) * P.Alignment ≤ n * P.Alignment :=
    Nat.mul_le_mul_right _ (Nat.sub_le _ _)
  have hceil : user_buffer_ceil_units P (user_bytes P n) = n - P.AllocatedCtrlUnits := by
    unfold user_buffer_ceil_units user_bytes
    split_ifs with hsmall
    · have hzero : (n - P.AllocatedCtrlUnits) * P.Alignment = 0 := by omega
      have hpos := P.Alignment_pos
      rcases Nat.mul_eq_zero.mp hzero with hzero | hzero
      · exact hzero.symm
      · omega
    · rw [Nat.add_sub_cancel, ceil_units,
        get_rounded_size_mul P.Alignment_pos P.Alignment_dvd (by omega),
        Nat.mul_div_cancel _ P.Alignment_pos]
  rw [min_units, hceil, Nat.sub_add_cancel (by omega)]
  exact Nat.max_eq_left hn

end Sizes

/-- The request for all elements has the units of one that it is not smaller than. -/
theorem le_total_bytes_units (hn : P.BlockCtrlUnits ≤ n) (total : Nat)
    (hle : user_bytes P n ≤ size_sub (total * P.Alignment % 2 ^ 64)
      (P.AllocatedCtrlBytes - UsableByPreviousChunk)) :
    n ≤ priv_get_total_units P (size_sub (total * P.Alignment % 2 ^ 64)
      (P.AllocatedCtrlBytes - UsableByPreviousChunk)) := by
  have hge := P.AllocatedCtrlBytes_ge
  have hdvd : P.Alignment ∣ 2 ^ 64 := P.Alignment_dvd
  have huser := user_bytes_ge (P := P) n
  have hblock : P.AllocatedCtrlUnits ≤ n := Nat.le_trans P.AllocatedCtrlUnits_le hn
  generalize hs : size_sub (total * P.Alignment % 2 ^ 64)
    (P.AllocatedCtrlBytes - UsableByPreviousChunk) = s at *
  have hslt : s < 2 ^ 64 := hs ▸ Nat.mod_lt _ (by decide)
  have hmultiple : P.Alignment ∣ s - UsableByPreviousChunk := by
    have hq : P.Alignment ∣ total * P.Alignment % 2 ^ 64 :=
      dvd_mod_two_pow (Nat.le_of_lt P.alignment_lt) rfl (Nat.dvd_mul_left _ _)
    have hctrl : P.Alignment ∣ P.AllocatedCtrlBytes := dvd_ct_rounded_size _ _
    have hctrl64 : P.AllocatedCtrlBytes ≤ 2 ^ 64 := by
      rcases P.AllocatedCtrlBytes_le with hsmall | heq
      · omega
      · exact heq ▸ Nat.le_of_dvd (by decide) hdvd
    have hsum := Nat.dvd_add hq (Nat.dvd_sub hdvd hctrl)
    have hshift : s - UsableByPreviousChunk = total * P.Alignment % 2 ^ 64 +
        (2 ^ 64 - P.AllocatedCtrlBytes) - 2 ^ 64 * ((total * P.Alignment % 2 ^ 64 +
          (2 ^ 64 - P.AllocatedCtrlBytes) + 8) / 2 ^ 64) := by
      unfold size_sub at hs
      unfold UsableByPreviousChunk at *
      omega
    rw [hshift]
    exact Nat.dvd_sub hsum (Nat.dvd_trans hdvd (Nat.dvd_mul_right _ _))
  have hfits : Fits P s := by
    obtain ⟨k, hk⟩ := hmultiple
    obtain ⟨q, hq⟩ := hdvd
    refine ⟨hslt, ?_⟩
    have hkq : k + 1 ≤ q := by
      refine Nat.lt_of_mul_lt_mul_left (a := P.Alignment) ?_
      omega
    have hmul : P.Alignment * (k + 1) ≤ P.Alignment * q := Nat.mul_le_mul_left _ hkq
    rw [Nat.mul_succ] at hmul
    omega
  by_contra hless
  have hunits := priv_get_total_units_ge P s
  have hbytes := (priv_get_total_units_le_iff hfits hunits).mp (Nat.le_refl _)
  have hmore := user_bytes_lt (P := P) (Nat.le_trans P.AllocatedCtrlUnits_le hunits)
    (Nat.lt_of_not_le hless)
  omega

/-- The request of a round: for one element at least, for all at best. -/
def allocate_round (P : Traits) (h : Heap) (units total alignment : Nat) : Answer :=
  priv_allocate P h ⟨true, false, false, false⟩ (user_bytes P units)
    (size_sub (total * P.Alignment % 2 ^ 64) (P.AllocatedCtrlBytes - UsableByPreviousChunk)) 0 1
    alignment

/-- The block that a round receives has room for the next element. -/
theorem Rep.allocate_round_granted (hrep : Rep P h first blocks)
    (hlt : stop P.Alignment first blocks < 2 ^ 64) {rest : List Nat}
    (hfits : ElementsFit P sizeof_element alignment (elem_size :: rest)) (total : Nat) :
    Granted P h first blocks (elem_units P sizeof_element elem_size)
      (allocate_round P h (elem_units P sizeof_element elem_size) total alignment).heap
      (allocate_round P h (elem_units P sizeof_element elem_size) total alignment).ret := by
  obtain ⟨hbytes, haligned⟩ := hfits elem_size List.mem_cons_self
  have hunits := elem_units_ge P sizeof_element elem_size
  by_cases hle : user_bytes P (elem_units P sizeof_element elem_size) ≤
      size_sub (total * P.Alignment % 2 ^ 64) (P.AllocatedCtrlBytes - UsableByPreviousChunk)
  · refine hrep.priv_allocate_granted hlt ?_ (le_total_bytes_units hunits total hle) fun _ => haligned
    rw [priv_get_total_units_user_bytes hunits (user_bytes_lt_of_units hunits hbytes),
      min_units_user_bytes hunits hbytes, Nat.min_self]
  · unfold allocate_round priv_allocate
    simp only [Bool.false_eq_true, if_pos (Nat.lt_of_not_le hle)]
    exact Or.inl ⟨rfl, rfl⟩

theorem allocate_rounds_cons (fuel total : Nat) (chain rest : List Nat)
    (hlt : elem_units P sizeof_element elem_size * P.Alignment < 2 ^ 64) :
    allocate_rounds P sizeof_element alignment (fuel + 1) ⟨h, total, chain, elem_size :: rest⟩ =
      let answer := allocate_round P h (elem_units P sizeof_element elem_size) total alignment
      if answer.ret = 0 then ⟨answer.heap, total, chain, elem_size :: rest⟩
      else allocate_rounds P sizeof_element alignment fuel
        (fill P sizeof_element answer.heap (priv_get_block P answer.ret) 0
          (m_size answer.heap.mem (priv_get_block P answer.ret)) total chain (elem_size :: rest)) := by
  have hunits : (if sizeof_element = 0 then elem_units P 0 elem_size
      else priv_get_total_units P (elem_bytes sizeof_element elem_size)) =
        elem_units P sizeof_element elem_size := by
    split_ifs with hzero
    · rw [hzero]
    · exact (elem_units_eq P sizeof_element elem_size).symm
  rw [allocate_rounds]
  simp only [hunits, min_allocation_eq (elem_units_ge P sizeof_element elem_size) hlt]
  rfl

/-- Blocks that an operation leaves alone lie elsewhere than those it makes. -/
theorem Operation.live_apart {gone fresh : List (Nat × Nat)} {x v : Nat}
    (hop : Operation P h h' first blocks blocks' gone fresh) (hfresh : (x, v) ∈ fresh)
    (hx : LiveAt P first blocks' x v) {p : Nat × Nat} (hlive : LiveAt P first blocks p.1 p.2)
    (hgone : p ∉ gone) : LiveAt P first blocks' p.1 p.2 ∧ p.1 ≠ x := by
  have hlive' := hop.live hlive hgone
  refine ⟨hlive', fun heq => hop.not_mem_fresh hlive hgone ?_⟩
  have hunits : p.2 = v := hop.rep.live_unique (heq ▸ hlive') hx
  rwa [show (p.1, p.2) = (x, v) from Prod.ext heq hunits]

/-- The block of a new buffer is in use. -/
theorem Operation.fresh_live {fresh : List (Nat × Nat)} {p : Nat × Nat}
    (hop : Operation P h h' first blocks blocks' [] fresh) (hp : p ∈ fresh) :
    LiveAt P first blocks' p.1 p.2 :=
  (mem_usedBlocks _).mp (hop.used.symm.subset (List.mem_append_left _ hp))

theorem Operation.used_extended
    (hop : Operation P h h' first blocks blocks' chained (chained ++ added)) :
    (usedBlocks P.Alignment first blocks').Perm (added ++ usedBlocks P.Alignment first blocks) := by
  have hused := hop.used
  rw [List.append_assoc] at hused
  exact (List.perm_append_left_iff chained).mp hused

section Extended

variable (hop : Operation P h h' first blocks blocks' chained (chained ++ added))
  (hchained : ∀ p ∈ chained, LiveAt P first blocks p.1 p.2)

include hop hchained

theorem Operation.chain_live : ∀ p ∈ chained ++ added, LiveAt P first blocks' p.1 p.2 := by
  intro p hp
  refine (mem_usedBlocks _).mp (hop.used_extended.symm.subset ?_)
  rcases List.mem_append.mp hp with hp | hp
  · exact List.mem_append_right _ ((mem_usedBlocks _).mpr (hchained p hp))
  · exact List.mem_append_left _ hp

theorem Operation.chain_nodup (hnodup : chained.Nodup) : (chained ++ added).Nodup := by
  have hused := hop.used_extended.nodup_iff.mp hop.rep.usedBlocks_nodup
  obtain ⟨hadded, _, hdisjoint⟩ := List.nodup_append.mp hused
  refine List.nodup_append.mpr ⟨hnodup, hadded, fun p hp q hq => ?_⟩
  exact (hdisjoint q hq p ((mem_usedBlocks _).mpr (hchained p hp))).symm

end Extended

/-- Elements in front of those that were filled. -/
theorem Filled.prepend {elems rest : List Nat} {added' : List (Nat × Nat)} {f : Filling}
    (hsuits : List.Forall₂ (fun elem p => Suits P (elem_units P sizeof_element elem) p.2) elems added)
    (hop : Operation P h h' first blocks blocks' chained (chained ++ added))
    (hfilled : Filled P h' first blocks' sizeof_element [] (chained ++ added) rest added' f) :
    Filled P h first blocks sizeof_element [] chained (elems ++ rest) (added ++ added') f := by
  obtain ⟨elems', hrest, hsuits'⟩ := hfilled.elements
  obtain ⟨blocks'', hop'⟩ := hfilled.operation
  refine ⟨⟨elems ++ elems', ?_, List.rel_append hsuits hsuits'⟩, ?_, blocks'', ?_⟩
  · rw [hrest, List.append_assoc]
  · rw [hfilled.chain_eq, List.append_assoc]
  · rw [List.nil_append, ← List.append_nil (chained ++ added)] at hop'
    rw [← List.append_nil (chained ++ added)] at hop
    have hboth := hop.trans_cancel hop'
    simp only [List.append_nil, List.nil_append] at hboth
    rwa [List.append_assoc] at hboth

theorem Filled.refl {f : Filling} (hrep : Rep P f.heap first blocks) (sizeof_element : Nat)
    (hchain : f.chain = buffers P chained) :
    Filled P f.heap first blocks sizeof_element [] chained f.rest [] f := by
  have hop := (Operation.refl hrep).touch_all chained
  rw [List.append_nil] at hop
  refine ⟨⟨[], rfl, .nil⟩, ?_, blocks, ?_⟩
  · rw [hchain, List.append_nil]
  · rw [List.nil_append, List.append_nil]
    exact hop

/-- The rounds make buffers for the elements in their order, until memory runs out. -/
theorem Rep.allocate_rounds_spec (fuel : Nat) (f : Filling) (hfuel : f.rest.length ≤ fuel)
    (hrep : Rep P f.heap first blocks) (hlt : stop P.Alignment first blocks < 2 ^ 64)
    (hchain : f.chain = buffers P chained) (hchained : ∀ p ∈ chained, LiveAt P first blocks p.1 p.2)
    (hfits : ElementsFit P sizeof_element alignment f.rest) :
    ∃ added, Filled P f.heap first blocks sizeof_element [] chained f.rest added
      (allocate_rounds P sizeof_element alignment fuel f) := by
  induction fuel generalizing f blocks chained with
  | zero =>
    rw [allocate_rounds]
    exact ⟨[], Filled.refl hrep sizeof_element hchain⟩
  | succ fuel ih =>
    obtain ⟨h, total, chain, rest⟩ := f
    cases rest with
    | nil =>
      rw [allocate_rounds]
      exact ⟨[], Filled.refl (f := ⟨h, total, chain, []⟩) hrep sizeof_element hchain⟩
    | cons elem_size rest =>
      have hgranted := hrep.allocate_round_granted hlt hfits total
      rw [allocate_rounds_cons fuel total chain rest (hfits elem_size List.mem_cons_self).1]
      simp only
      generalize allocate_round P h (elem_units P sizeof_element elem_size) total alignment = answer
        at *
      rcases hgranted with ⟨hnull, hheap⟩ | ⟨x, w, blocks', hret, hw, hop⟩
      · rw [if_pos hnull, hheap]
        exact ⟨[], Filled.refl (f := ⟨h, total, chain, elem_size :: rest⟩) hrep sizeof_element hchain⟩
      · have hlive := hop.fresh_live List.mem_cons_self
        have hsize := hop.rep.live_size hlive
        have hlt' : stop P.Alignment first blocks' < 2 ^ 64 := by rwa [stop, hop.units_eq]
        have hapart : ∀ p ∈ chained, LiveAt P first blocks' p.1 p.2 ∧ p.1 ≠ x := fun p hp =>
          hop.live_apart List.mem_cons_self hlive (hchained p hp) List.not_mem_nil
        rw [if_neg (hret ▸ priv_get_user_buffer_ne_zero x), hret, priv_get_block_user_buffer, hsize]
        rw [show chain = buffers P chained from hchain]
        obtain ⟨added, hne, hfilled⟩ := hop.rep.fill_received hlt' hlive hapart hw total rest
        generalize fill P sizeof_element answer.heap x 0 w total (buffers P chained)
          (elem_size :: rest) = f at *
        obtain ⟨elems, hrest, hsuits⟩ := hfilled.elements
        obtain ⟨blocks'', hfill⟩ := hfilled.operation
        rw [← List.append_nil [(x, w)]] at hop
        have hboth := hop.trans_cancel hfill
        rw [List.nil_append, List.nil_append] at hboth
        have hlength : f.rest.length ≤ fuel := by
          have hadded := List.length_pos_of_ne_nil hne
          have heq := congrArg List.length hrest
          rw [List.length_append, hsuits.length_eq] at heq
          change (elem_size :: rest).length ≤ fuel + 1 at hfuel
          omega
        obtain ⟨added', hfilled'⟩ := ih f hlength hboth.rep (by rwa [stop, hboth.units_eq])
          hfilled.chain_eq (hboth.chain_live hchained) (hfits.mono fun e he => by
            change e ∈ elem_size :: rest
            rw [hrest]
            exact List.mem_append_right _ he)
        refine ⟨added ++ added', ?_⟩
        rw [hrest]
        exact Filled.prepend hsuits hboth hfilled'

/-- Every buffer of a chain is given back. -/
theorem Rep.deallocate_many_operation (hrep : Rep P h first blocks)
    (hchained : ∀ p ∈ chained, LiveAt P first blocks p.1 p.2) (hnodup : chained.Nodup) :
    ∃ blocks', Operation P h (priv_deallocate_many P h (buffers P chained)) first blocks blocks' chained
      [] := by
  induction chained generalizing h blocks with
  | nil => exact ⟨blocks, Operation.refl hrep⟩
  | cons p rest ih =>
    obtain ⟨hp, hrest⟩ := List.nodup_cons.mp hnodup
    obtain ⟨blocks', hop⟩ := hrep.deallocate_operation (hchained p List.mem_cons_self)
    have hlive : ∀ q ∈ rest, LiveAt P first blocks' q.1 q.2 := by
      intro q hq
      refine hop.live (hchained q (List.mem_cons_of_mem p hq)) fun hmem => hp ?_
      obtain rfl : q = p := List.mem_singleton.mp hmem
      exact hq
    obtain ⟨blocks'', hop'⟩ := ih hop.rep hlive hrest
    exact ⟨blocks'', hop.trans hop'⟩

/-- The elements that `priv_allocate_many` sees. -/
def seen_sizes (sizeof_element : Nat) (elem_sizes : List Nat) : List Nat :=
  if sizeof_element = 0 then elem_sizes.map fun _ => elem_sizes.headD 0 else elem_sizes

theorem ElementsFit.seen {elem_sizes : List Nat}
    (hfits : ElementsFit P sizeof_element alignment elem_sizes) :
    ElementsFit P sizeof_element alignment (seen_sizes sizeof_element elem_sizes) := by
  unfold seen_sizes
  split_ifs
  · intro elem_size hmem
    obtain ⟨e, he, rfl⟩ := List.mem_map.mp hmem
    cases elem_sizes with
    | nil => cases he
    | cons first rest => exact hfits first List.mem_cons_self
  · exact hfits

/-- The size of all elements neither is 0 nor wraps. -/
def Requested (P : Traits) (sizeof_element : Nat) (elem_sizes : List Nat) : Prop :=
  total_request_units P sizeof_element (seen_sizes sizeof_element elem_sizes) ≠ 0 ∧
    !multiplication_overflows
      (total_request_units P sizeof_element (seen_sizes sizeof_element elem_sizes)) P.Alignment

/-- What a multiple allocation does with the blocks of its chain: none of it, all of
    it, or it gives everything back. -/
def ManyAllocated (P : Traits) (sizeof_element : Nat) (elem_sizes : List Nat)
    (chained used : List (Nat × Nat)) : Prop :=
  (¬ Requested P sizeof_element elem_sizes ∧ used = chained) ∨
    (Requested P sizeof_element elem_sizes ∧ (used = [] ∨ ∃ added, used = chained ++ added ∧
      List.Forall₂ (fun elem p => Suits P (elem_units P sizeof_element elem) p.2)
        (seen_sizes sizeof_element elem_sizes) added))

/-- A multiple allocation. -/
theorem Rep.priv_allocate_many_spec {elem_sizes : List Nat} (hrep : Rep P h first blocks)
    (hlt : stop P.Alignment first blocks < 2 ^ 64)
    (hchained : ∀ p ∈ chained, LiveAt P first blocks p.1 p.2) (hnodup : chained.Nodup)
    (hfits : ElementsFit P sizeof_element alignment elem_sizes) :
    ∃ blocks' used,
      (priv_allocate_many P h elem_sizes alignment sizeof_element (buffers P chained)).2 =
        buffers P used ∧
      Operation P h (priv_allocate_many P h elem_sizes alignment sizeof_element (buffers P chained)).1
        first blocks blocks' chained used ∧
      ManyAllocated P sizeof_element elem_sizes chained used := by
  have hfits' := hfits.seen
  unfold priv_allocate_many
  simp only
  rw [← seen_sizes.eq_def]
  by_cases hrequested : Requested P sizeof_element elem_sizes
  · have hlength : (seen_sizes sizeof_element elem_sizes).length = elem_sizes.length := by
      unfold seen_sizes
      split_ifs
      · exact List.length_map _
      · rfl
    unfold Requested at hrequested
    rw [if_pos hrequested, hlength]
    obtain ⟨added, hfilled⟩ := Rep.allocate_rounds_spec (seen_sizes sizeof_element elem_sizes).length
      ⟨h, total_request_units P sizeof_element (seen_sizes sizeof_element elem_sizes),
        buffers P chained, seen_sizes sizeof_element elem_sizes⟩ (Nat.le_refl _) hrep hlt rfl hchained
      hfits'
    rw [hlength] at hfilled
    generalize allocate_rounds P sizeof_element alignment elem_sizes.length _ = f at *
    obtain ⟨elems, hrest, hsuits⟩ := hfilled.elements
    obtain ⟨blocks', hop⟩ := hfilled.operation
    rw [List.nil_append] at hop
    by_cases hdone : f.rest = []
    · rw [if_neg (not_not.mpr hdone)]
      refine ⟨blocks', chained ++ added, hfilled.chain_eq, hop, Or.inr ⟨hrequested, Or.inr
        ⟨added, rfl, ?_⟩⟩⟩
      change seen_sizes sizeof_element elem_sizes = elems ++ f.rest at hrest
      rw [hdone, List.append_nil] at hrest
      rw [hrest]
      exact hsuits
    · rw [if_pos hdone]
      obtain ⟨blocks'', hop'⟩ := hop.rep.deallocate_many_operation (hop.chain_live hchained)
        (hop.chain_nodup hchained hnodup)
      rw [hfilled.chain_eq]
      rw [← List.append_nil (chained ++ added)] at hop hop'
      have hboth := hop.trans_cancel hop'
      rw [List.append_nil, List.append_nil, List.append_nil] at hboth
      exact ⟨blocks'', [], rfl, hboth, Or.inr ⟨hrequested, Or.inl rfl⟩⟩
  · unfold Requested at hrequested
    rw [if_neg hrequested]
    have hop := (Operation.refl hrep).touch_all chained
    rw [List.append_nil] at hop
    exact ⟨blocks, chained, rfl, hop, Or.inl ⟨hrequested, rfl⟩⟩

end interprocess.rbtree_best_fit
