import Interprocess.MemAlgo.RbtreeBestFit.BothSides
import Interprocess.MemAlgo.RbtreeBestFit.Construction

namespace interprocess.rbtree_best_fit

open ipcdetail Memory Tiling

/-- What an operation did: the blocks `gone` are not in use any more or were
    changed, the blocks `fresh` stand for them, and the buffers of all other blocks
    in use have the same bytes. -/
structure Operation (P : Traits) (h h' : Heap) (first : Nat) (blocks blocks' : List Block)
    (gone fresh : List (Nat × Nat)) : Prop where
  rep : Rep P h' first blocks'
  segment : h'.segment = h.segment
  units_eq : units blocks' = units blocks
  used : (gone ++ usedBlocks P.Alignment first blocks').Perm
    (fresh ++ usedBlocks P.Alignment first blocks)
  kept : ∀ b u, LiveAt P first blocks b u → (b, u) ∉ gone →
    SameOn h'.mem h.mem (b + P.AllocatedCtrlBytes) (b + u * P.Alignment + UsableByPreviousChunk)

variable {P : Traits} {h h' h'' : Heap} {first b u : Nat} {blocks blocks' blocks'' L G G' R : List Block}
  {gone gone' fresh fresh' : List (Nat × Nat)}

theorem Operation.m_size_eq (hop : Operation P h h' first blocks blocks' gone fresh) :
    h'.m_size = h.m_size :=
  congrArg (fun segment => segment.2.2) hop.segment

theorem Operation.refl (hrep : Rep P h first blocks) : Operation P h h first blocks blocks [] [] :=
  ⟨hrep, rfl, rfl, List.Perm.refl _, fun _ _ _ _ _ _ _ => rfl⟩

/-- A block in use that is not gone is still there. -/
theorem Operation.live (hop : Operation P h h' first blocks blocks' gone fresh)
    (hlive : LiveAt P first blocks b u) (hgone : (b, u) ∉ gone) : LiveAt P first blocks' b u := by
  have hmem : (b, u) ∈ gone ++ usedBlocks P.Alignment first blocks' :=
    hop.used.mem_iff.mpr (List.mem_append_right _ ((mem_usedBlocks _).mpr hlive))
  exact (mem_usedBlocks _).mp ((List.mem_append.mp hmem).resolve_left hgone)

theorem Operation.trans (hop : Operation P h h' first blocks blocks' gone fresh)
    (hop' : Operation P h' h'' first blocks' blocks'' gone' fresh') :
    Operation P h h'' first blocks blocks'' (gone ++ gone') (fresh ++ fresh') := by
  refine ⟨hop'.rep, hop'.segment.trans hop.segment, hop'.units_eq.trans hop.units_eq, ?_, ?_⟩
  · have hfirst := (hop'.used.append_left gone)
    have hsecond := (hop.used.append_left fresh')
    rw [← List.append_assoc] at hfirst
    refine hfirst.trans ((List.perm_append_comm_assoc _ _ _).trans (hsecond.trans ?_))
    rw [List.append_assoc]
    exact List.perm_append_comm_assoc _ _ _
  · intro b u hlive hgone
    rw [List.mem_append, not_or] at hgone
    exact (hop'.kept b u (hop.live hlive hgone.1) hgone.2).trans (hop.kept b u hlive hgone.1)

/-- There is one block at an address. -/
theorem Rep.live_unique {v : Nat} (hrep : Rep P h first blocks) (hu : LiveAt P first blocks b u)
    (hv : LiveAt P first blocks b v) : u = v := by
  have hpos : ∀ w, LiveAt P first blocks b w → 0 < w * P.Alignment := fun w hw =>
    Nat.mul_pos (Nat.lt_of_lt_of_le P.BlockCtrlUnits_pos (hrep.sizes _ (mem_of_mem_placed _ hw)))
      P.Alignment_pos
  have hupos := hpos u hu
  have hvpos := hpos v hv
  rcases placed_apart _ hu hv with ⟨_, hsame⟩ | hapart | hapart
  · exact congrArg Block.units hsame
  · change b + u * P.Alignment ≤ b at hapart
    omega
  · change b + v * P.Alignment ≤ b at hapart
    omega

theorem Rep.usedBlocks_nodup (hrep : Rep P h first blocks) :
    (usedBlocks P.Alignment first blocks).Nodup := by
  have hnodup := useds_nodup P.Alignment (a := first) P.Alignment_pos
    fun b hb => Nat.lt_of_lt_of_le P.BlockCtrlUnits_pos (hrep.sizes b hb)
  rw [← usedBlocks_map_fst] at hnodup
  exact hnodup.of_map _

/-- A block that is left alone may be named on both sides. -/
theorem Operation.touch (hop : Operation P h h' first blocks blocks' gone fresh) (b u : Nat) :
    Operation P h h' first blocks blocks' ((b, u) :: gone) ((b, u) :: fresh) := by
  refine ⟨hop.rep, hop.segment, hop.units_eq, hop.used.cons _, ?_⟩
  intro x v hlive hgone
  exact hop.kept x v hlive fun hmem => hgone (List.mem_cons_of_mem _ hmem)

/-- A block that was resized where it is. -/
theorem Operation.live_resized {v : Nat} (hlive : LiveAt P first blocks b u)
    (hop : Operation P h h' first blocks blocks' [(b, u)] [(b, v)]) : LiveAt P first blocks' b v := by
  have hmem := hop.used.symm.mem_iff.mp (List.mem_cons_self : (b, v) ∈ (b, v) :: _)
  rcases List.mem_cons.mp hmem with heq | hmem
  · obtain ⟨_, rfl⟩ := Prod.mk.inj heq
    exact (mem_usedBlocks _).mp (hop.used.cons_inv.mem_iff.mpr ((mem_usedBlocks _).mpr hlive))
  · exact (mem_usedBlocks _).mp hmem

/-- What an operation leaves alone is none of the blocks it makes. -/
theorem Operation.not_mem_fresh (hop : Operation P h h' first blocks blocks' gone fresh)
    (hlive : LiveAt P first blocks b u) (hgone : (b, u) ∉ gone) : (b, u) ∉ fresh := by
  intro hfresh
  have hcount := hop.used.count_eq (b, u)
  rw [List.count_append, List.count_append, List.count_eq_zero_of_not_mem hgone] at hcount
  have hone := List.nodup_iff_count_le_one.mp hop.rep.usedBlocks_nodup (b, u)
  have hnew := List.count_pos_iff.mpr hfresh
  have hold := List.count_pos_iff.mpr ((mem_usedBlocks _).mpr hlive)
  omega

/-- An operation on blocks that an operation before it made. -/
theorem Operation.trans_cancel {mid : List (Nat × Nat)}
    (hop : Operation P h h' first blocks blocks' gone (mid ++ fresh))
    (hop' : Operation P h' h'' first blocks' blocks'' (mid ++ gone') fresh') :
    Operation P h h'' first blocks blocks'' (gone ++ gone') (fresh ++ fresh') := by
  have htrans := hop.trans hop'
  refine ⟨htrans.rep, htrans.segment, htrans.units_eq, ?_, ?_⟩
  · refine List.perm_iff_count.mpr fun p => ?_
    have hcount := htrans.used.count_eq p
    simp only [List.count_append] at hcount ⊢
    omega
  · intro b u hlive hgone
    rw [List.mem_append, not_or] at hgone
    refine htrans.kept b u hlive ?_
    have hfresh := hop.not_mem_fresh hlive hgone.1
    simp only [List.mem_append, not_or] at hfresh ⊢
    exact ⟨hgone.1, hfresh.1, hgone.2⟩

/-- An operation on a block that an operation before resized where it is. -/
theorem Operation.trans_resized {v : Nat}
    (hop : Operation P h h' first blocks blocks' [(b, u)] [(b, v)])
    (hop' : Operation P h' h'' first blocks' blocks'' ((b, v) :: gone') fresh') :
    Operation P h h'' first blocks blocks'' ((b, u) :: gone') fresh' := by
  rw [← List.append_nil [(b, v)]] at hop
  rw [← List.singleton_append] at hop'
  exact hop.trans_cancel hop'

theorem Operation.perm (hop : Operation P h h' first blocks blocks' gone fresh)
    (hgone : gone.Perm gone') (hfresh : fresh.Perm fresh') :
    Operation P h h' first blocks blocks' gone' fresh' := by
  refine ⟨hop.rep, hop.segment, hop.units_eq, ?_, ?_⟩
  · exact (hgone.symm.append_right _).trans (hop.used.trans (hfresh.append_right _))
  · exact fun b u hlive hnot => hop.kept b u hlive fun hmem => hnot (hgone.subset hmem)

/-- Blocks that are left alone may be named on both sides. -/
theorem Operation.touch_all (hop : Operation P h h' first blocks blocks' gone fresh)
    (used : List (Nat × Nat)) :
    Operation P h h' first blocks blocks' (used ++ gone) (used ++ fresh) := by
  induction used with
  | nil => exact hop
  | cons p used ih => exact ih.touch p.1 p.2

/-- An exchange of blocks is an operation on the blocks in use among them. -/
theorem Operation.of_exchange (hrep : Rep P h first (L ++ G ++ R))
    (hex : Exchange P h h' first L G G' R) (hsegment : h'.segment = h.segment) :
    Operation P h h' first (L ++ G ++ R) (L ++ G' ++ R)
      (usedBlocks P.Alignment (stop P.Alignment first L) G)
      (usedBlocks P.Alignment (stop P.Alignment first L) G') := by
  have hunits : units (L ++ G' ++ R) = units (L ++ G ++ R) := by
    simp only [units_append, hex.units_eq]
  refine ⟨hrep.exchange hex, hsegment, hunits, ?_, ?_⟩
  · simp only [usedBlocks_append, stop_append_congr first L hex.units_eq]
    simp only [List.append_assoc]
    refine (List.perm_append_comm_assoc _ _ _).trans ?_
    refine ((List.perm_append_comm_assoc _ _ _).append_left _).trans ?_
    exact List.perm_append_comm_assoc _ _ _
  · intro b u hlive hgone
    exact (hrep.exchange_kept hex hlive fun hG => hgone ((mem_usedBlocks _).mpr hG)).2

/-- The buffer of a block in use. -/
theorem Rep.live_buffer (hrep : Rep P h first blocks) (hlive : LiveAt P first blocks b u) :
    priv_get_user_buffer P b + size P h (priv_get_user_buffer P b) =
      b + u * P.Alignment + UsableByPreviousChunk := by
  obtain ⟨L, R, rfl, rfl⟩ := exists_of_mem_placed _ hlive
  have hu : P.BlockCtrlUnits ≤ u := hrep.sizes ⟨u, true⟩ (by simp)
  rw [hrep.size_eq, priv_get_user_buffer, Nat.add_assoc,
    user_bytes_add (Nat.le_trans P.AllocatedCtrlUnits_le hu), Nat.add_assoc]

/-- What a call does to the heap of its clients: the blocks `gone` are not in use any
    more or were changed, the blocks `fresh` stand for them, and the buffers of all
    other blocks in use have the same bytes. The segment may have a new size. -/
structure Outcome (P : Traits) (h h' : Heap) (first : Nat) (blocks blocks' : List Block)
    (gone fresh : List (Nat × Nat)) : Prop where
  rep : Rep P h' first blocks'
  enclosed : Enclosed P h' first blocks'
  used : (gone ++ usedBlocks P.Alignment first blocks').Perm
    (fresh ++ usedBlocks P.Alignment first blocks)
  kept : ∀ b u, LiveAt P first blocks b u → (b, u) ∉ gone →
    SameOn h'.mem h.mem (b + P.AllocatedCtrlBytes) (b + u * P.Alignment + UsableByPreviousChunk)

theorem Operation.outcome (hop : Operation P h h' first blocks blocks' gone fresh)
    (henclosed : Enclosed P h first blocks) : Outcome P h h' first blocks blocks' gone fresh :=
  ⟨hop.rep, henclosed.congr hop.segment hop.units_eq, hop.used, hop.kept⟩

theorem Outcome.refl (hrep : Rep P h first blocks) (henclosed : Enclosed P h first blocks) :
    Outcome P h h first blocks blocks [] [] :=
  (Operation.refl hrep).outcome henclosed

/-- A block in use that the call does not touch is still there. -/
theorem Outcome.live (hout : Outcome P h h' first blocks blocks' gone fresh)
    (hlive : LiveAt P first blocks b u) (hgone : (b, u) ∉ gone) : LiveAt P first blocks' b u := by
  have hmem : (b, u) ∈ gone ++ usedBlocks P.Alignment first blocks' :=
    hout.used.mem_iff.mpr (List.mem_append_right _ ((mem_usedBlocks _).mpr hlive))
  exact (mem_usedBlocks _).mp ((List.mem_append.mp hmem).resolve_left hgone)

/-- The buffers of some blocks. -/
def buffers (P : Traits) (used : List (Nat × Nat)) : List Nat :=
  used.map fun p => priv_get_user_buffer P p.1

theorem buffers_append (used used' : List (Nat × Nat)) :
    buffers P (used ++ used') = buffers P used ++ buffers P used' :=
  List.map_append

/-- The clients hold buffers of the blocks in use; of some they lost track. -/
structure Owned (P : Traits) (h : Heap) (first : Nat) (blocks : List Block) (live : List Nat) :
    Prop where
  rep : Rep P h first blocks
  enclosed : Enclosed P h first blocks
  live_subperm : live.Subperm (buffers P (usedBlocks P.Alignment first blocks))

variable {live live' : List Nat}

theorem Owned.exists_live {ptr : Nat} (howned : Owned P h first blocks live) (hptr : ptr ∈ live) :
    ∃ b u, LiveAt P first blocks b u ∧ ptr = priv_get_user_buffer P b := by
  obtain ⟨⟨b, u⟩, hmem, rfl⟩ := List.mem_map.mp (howned.live_subperm.subset hptr)
  exact ⟨b, u, (mem_usedBlocks _).mp hmem, rfl⟩

theorem Owned.not_mem_zero (howned : Owned P h first blocks live) : 0 ∉ live := by
  intro hzero
  obtain ⟨b, u, _, hptr⟩ := howned.exists_live hzero
  exact priv_get_user_buffer_ne_zero b hptr.symm

theorem Owned.nodup (howned : Owned P h first blocks live) : live.Nodup := by
  have hnodup := useds_nodup P.Alignment (a := first) P.Alignment_pos
    fun b hb => Nat.lt_of_lt_of_le P.BlockCtrlUnits_pos (howned.rep.sizes b hb)
  rw [← usedBlocks_map_fst] at hnodup
  have hmap := hnodup.map (f := priv_get_user_buffer P) fun _ _ heq => Nat.add_right_cancel heq
  rw [List.map_map] at hmap
  obtain ⟨held, hperm, hsub⟩ := howned.live_subperm
  exact hperm.nodup_iff.mp (hmap.sublist hsub)

/-- The buffers held after a call. -/
theorem Outcome.owned (hout : Outcome P h h' first blocks blocks' gone fresh)
    (howned : Owned P h first blocks live)
    (hlive : (buffers P gone ++ live').Subperm (buffers P fresh ++ live)) :
    Owned P h' first blocks' live' := by
  refine ⟨hout.rep, hout.enclosed, ?_⟩
  have hused : (buffers P (fresh ++ usedBlocks P.Alignment first blocks)).Perm
      (buffers P (gone ++ usedBlocks P.Alignment first blocks')) := (hout.used.map _).symm
  rw [buffers_append, buffers_append] at hused
  have hsub := hlive.trans ((List.subperm_append_left _).mpr howned.live_subperm)
  exact (List.subperm_append_left _).mp (hsub.trans hused.subperm)

end interprocess.rbtree_best_fit
