import Interprocess.MemAlgo.RbtreeBestFit.Requests

namespace interprocess.rbtree_best_fit

open ipcdetail Memory Tiling

variable {P : Traits} {h h' : Heap} {first b u v : Nat} {blocks blocks' : List Block}
  {command : allocation_type} {limit_size preferred_size sizeof_object alignof_object received : Nat}

/-- The bytes that a buffer keeps when its block is resized where it is. -/
def KeepsBytes (P : Traits) (h h' : Heap) (b u v : Nat) : Prop :=
  SameOn h'.mem h.mem (priv_get_user_buffer P b)
    (priv_get_user_buffer P b + min (user_bytes P u) (user_bytes P v))

theorem KeepsBytes.refl (h : Heap) (b u v : Nat) : KeepsBytes P h h b u v :=
  fun _ _ _ => rfl

theorem KeepsBytes.trans {h'' : Heap} {w : Nat} (hkeeps : KeepsBytes P h h' b u v) (huv : u ≤ v)
    (hkeeps' : KeepsBytes P h' h'' b v w) : KeepsBytes P h h'' b u w := by
  have hle := user_bytes_mono (P := P) huv
  refine (SameOn.mono hkeeps' (Nat.le_refl _) ?_).trans (SameOn.mono hkeeps (Nat.le_refl _) ?_)
  · omega
  · omega

/-- The answer to a command that may reuse the buffer of a block: null, a new buffer,
    the buffer itself, or one that starts in front of it. The block may be resized
    where it is in any case. -/
inductive Reused (P : Traits) (h : Heap) (first : Nat) (blocks : List Block) (b u : Nat)
    (answer : Answer) : Prop
  | null {v : Nat} {blocks' : List Block} (hret : answer.ret = 0)
      (hop : Operation P h answer.heap first blocks blocks' [(b, u)] [(b, v)])
      (hkeeps : KeepsBytes P h answer.heap b u v)
  | fresh {v x w : Nat} {blocks' : List Block} (hret : answer.ret = priv_get_user_buffer P x)
      (hop : Operation P h answer.heap first blocks blocks' [(b, u)] [(b, v), (x, w)])
      (hkeeps : KeepsBytes P h answer.heap b u v)
  | in_place {v : Nat} {blocks' : List Block} (hret : answer.ret = priv_get_user_buffer P b)
      (hreuse : answer.reuse_ptr = priv_get_user_buffer P b)
      (hop : Operation P h answer.heap first blocks blocks' [(b, u)] [(b, v)])
      (hkeeps : KeepsBytes P h answer.heap b u v)
  | moved {x w : Nat} {blocks' : List Block} (hret : answer.ret = priv_get_user_buffer P x)
      (hlt : x < b) (hreuse : answer.reuse_ptr = priv_get_user_buffer P b)
      (hop : Operation P h answer.heap first blocks blocks' [(b, u)] [(x, w)])

/-- The buffer was not shortened before. -/
theorem Reused.after {answer : Answer}
    (hop : Operation P h h' first blocks blocks' [(b, u)] [(b, v)]) (huv : u ≤ v)
    (hkeeps : KeepsBytes P h h' b u v) (hreused : Reused P h' first blocks' b v answer) :
    Reused P h first blocks b u answer := by
  cases hreused with
  | null hret hop' hkeeps' =>
    exact .null hret (hop.trans_resized hop') (hkeeps.trans huv hkeeps')
  | fresh hret hop' hkeeps' =>
    exact .fresh hret (hop.trans_resized hop') (hkeeps.trans huv hkeeps')
  | in_place hret hreuse hop' hkeeps' =>
    exact .in_place hret hreuse (hop.trans_resized hop') (hkeeps.trans huv hkeeps')
  | moved hret hlt hreuse hop' =>
    exact .moved hret hlt hreuse (hop.trans_resized hop')

theorem Reused.unchanged {answer : Answer} (hrep : Rep P h first blocks) (hret : answer.ret = 0)
    (hheap : answer.heap = h) (b u : Nat) : Reused P h first blocks b u answer := by
  have hop : Operation P h answer.heap first blocks blocks [(b, u)] [(b, u)] := by
    rw [hheap]
    exact (Operation.refl hrep).touch b u
  refine .null hret hop ?_
  rw [hheap]
  exact KeepsBytes.refl h b u u

/-- A new buffer of the heap. -/
theorem Granted.reused {n : Nat} {answer : Answer} (hrep : Rep P h first blocks)
    (hgranted : Granted P h first blocks n answer.heap answer.ret) (hlive : LiveAt P first blocks b u) :
    Reused P h first blocks b u answer := by
  rcases hgranted with ⟨hret, hheap⟩ | ⟨x, w, blocks', hret, _, hop⟩
  · exact Reused.unchanged hrep hret hheap b u
  · refine .fresh hret (hop.touch b u) ?_
    have hu : P.BlockCtrlUnits ≤ u := hrep.sizes _ (mem_of_mem_placed _ hlive)
    have hbytes := user_bytes_add (P := P) (Nat.le_trans P.AllocatedCtrlUnits_le hu)
    refine SameOn.mono (hop.kept b u hlive List.not_mem_nil) (Nat.le_refl _) ?_
    unfold priv_get_user_buffer
    omega

/-- An attempt to expand that was not null is the answer. -/
theorem Attempted.reused {ret : Nat} (hattempted : Attempted P h first blocks b u h' ret)
    (received : Nat) :
    Reused P h first blocks b u ⟨h', ret, received, priv_get_user_buffer P b⟩ := by
  obtain ⟨x, w, blocks', hop, ⟨rfl, hle, hsame, hret⟩ | ⟨hret, hlt⟩⟩ := hattempted
  · have hkeeps : KeepsBytes P h h' x u w := by
      refine SameOn.mono hsame (Nat.le_refl _) ?_
      omega
    rcases hret with hret | hret
    · exact .null hret hop hkeeps
    · exact .in_place hret rfl hop hkeeps
  · exact .moved hret hlt rfl hop

/-- A null attempt leaves the buffer where it is. -/
theorem Attempted.of_null (hattempted : Attempted P h first blocks b u h' 0) :
    ∃ v blocks', Operation P h h' first blocks blocks' [(b, u)] [(b, v)] ∧ u ≤ v ∧
      KeepsBytes P h h' b u v := by
  obtain ⟨x, w, blocks', hop, ⟨rfl, hle, hsame, _⟩ | ⟨hret, _⟩⟩ := hattempted
  · refine ⟨w, blocks', hop, hle, SameOn.mono hsame (Nat.le_refl _) ?_⟩
    omega
  · exact absurd hret.symm (priv_get_user_buffer_ne_zero x)

/-- A shrink that cuts gives the end of the block back. -/
theorem Rep.shrink_cuts_operation {max_size : Nat} (hrep : Rep P h first blocks)
    (hlive : LiveAt P first blocks b u) (hcuts : CutsOff P u max_size preferred_size) :
    ∃ h' blocks', shrink P h (priv_get_user_buffer P b) max_size preferred_size =
        (h', true, user_bytes P (shrunk_units P preferred_size)) ∧
      Operation P h h' first blocks blocks' [(b, u)] [(b, shrunk_units P preferred_size)] ∧
      KeepsBytes P h h' b u (shrunk_units P preferred_size) := by
  obtain ⟨L, c, d, p, n, R, rfl, hloc, hbuffer⟩ := hrep.exists_located hlive
  have hb := Nat.add_right_cancel hbuffer
  have hblocks : L ++ surrounded c d p u n ++ R =
      L ++ free_if c p ++ ([⟨u, true⟩] ++ free_if d n) ++ R := by simp [surrounded]
  have hrep' := hloc.rep_here
  rw [List.append_cons] at hrep'
  obtain ⟨h', hanswer, hexchange, hsame⟩ := hrep'.shrink_cuts hloc.behind_used hcuts
  rw [stop_free_if, ← hb] at hanswer hsame
  have hsegment := segment_shrink (P := P) (h := h) (priv_get_user_buffer P b) max_size preferred_size
  rw [hanswer] at hsegment
  have hlive' := hrep
  rw [hblocks] at hlive'
  have hop := Operation.of_exchange hlive' hexchange hsegment
  rw [stop_free_if, ← hb, List.singleton_append, usedBlocks_cons_used, usedBlocks_free_if,
    usedBlocks_cons_used, usedBlocks_cons_free, usedBlocks_nil, ← List.singleton_append,
    ← hblocks] at hop
  refine ⟨h', _, hanswer, hop, ?_⟩
  have hge : P.AllocatedCtrlUnits ≤ shrunk_units P preferred_size := Nat.le_add_right _ _
  have hbytes := user_bytes_add hge
  refine SameOn.mono hsame (Nat.le_refl _) ?_
  unfold priv_get_user_buffer
  omega

/-- A shrink cuts, keeps a buffer of the preferred units as it is, or fails. -/
theorem Rep.shrink_spec (hrep : Rep P h first blocks) (hlive : LiveAt P first blocks b u)
    (max_size preferred_size : Nat) :
    (CutsOff P u max_size preferred_size ∧ ∃ h' blocks',
      shrink P h (priv_get_user_buffer P b) max_size preferred_size =
        (h', true, user_bytes P (shrunk_units P preferred_size)) ∧
      Operation P h h' first blocks blocks' [(b, u)] [(b, shrunk_units P preferred_size)] ∧
      KeepsBytes P h h' b u (shrunk_units P preferred_size)) ∨
    (IsPreferred P u max_size preferred_size ∧
      shrink P h (priv_get_user_buffer P b) max_size preferred_size = (h, true, user_bytes P u)) ∨
    (¬ CutsOff P u max_size preferred_size ∧ ¬ IsPreferred P u max_size preferred_size ∧
      shrink P h (priv_get_user_buffer P b) max_size preferred_size = (h, false, user_bytes P u)) := by
  by_cases hcuts : CutsOff P u max_size preferred_size
  · exact Or.inl ⟨hcuts, hrep.shrink_cuts_operation hlive hcuts⟩
  · obtain ⟨L, R, rfl, rfl⟩ := exists_of_mem_placed _ hlive
    rw [List.append_cons] at hrep
    by_cases hpreferred : IsPreferred P u max_size preferred_size
    · exact Or.inr (Or.inl ⟨hpreferred, (hrep.shrink_keeps hpreferred).2⟩)
    · exact Or.inr (Or.inr ⟨hcuts, hpreferred, (hrep.shrink_fails hcuts hpreferred).2⟩)

/-- A deallocation takes the block out of use. -/
theorem Rep.deallocate_operation (hrep : Rep P h first blocks) (hlive : LiveAt P first blocks b u) :
    ∃ blocks', Operation P h (priv_deallocate P h (priv_get_user_buffer P b)) first blocks blocks'
      [(b, u)] [] := by
  obtain ⟨L, c, d, p, n, R, rfl, hloc, hbuffer⟩ := hrep.exists_located hlive
  have hb := Nat.add_right_cancel hbuffer
  have hop := Operation.of_exchange hrep (hrep.deallocate_exchange hloc.front_used hloc.behind_used)
    (segment_priv_deallocate _)
  rw [usedBlocks_surrounded, usedBlocks_cons_free, usedBlocks_nil, ← hb] at hop
  exact ⟨_, hop⟩

/-- The last attempt of a command only splits exactly, if there is one. -/
def LastExpandsExactly (P : Traits) (h : Heap) (command : allocation_type)
    (limit_size preferred_size reuse_ptr sizeof_object alignof_object : Nat) : Prop :=
  (command.allocate_new = true →
    alignof_object ≤ P.Alignment ∧ best_fit P h limit_size preferred_size = none) →
  ExpandsExactly P h command limit_size preferred_size reuse_ptr limit_size sizeof_object
    alignof_object

section Reuse

variable (hrep : Rep P h first blocks) (hlt : stop P.Alignment first blocks < 2 ^ 64)
  (hlive : LiveAt P first blocks b u) (hle : limit_size ≤ preferred_size)
  (hfits : Fits P preferred_size)

include hrep hlt hlive hle hfits

theorem Rep.expand_minimum_reused
    (hexact : ExpandsExactly P h command limit_size preferred_size (priv_get_user_buffer P b)
      limit_size sizeof_object alignof_object) :
    Reused P h first blocks b u (expand_minimum P h command limit_size preferred_size
      (priv_get_user_buffer P b) sizeof_object alignof_object received) := by
  unfold expand_minimum
  split_ifs
  · refine Attempted.reused ?_ _
    refine hrep.expand_attempted hlt hlive hle hfits ?_
    rw [if_neg (by nofun)]
    exact hexact
  · exact Reused.unchanged hrep rfl rfl b u

theorem Rep.allocate_or_expand_reused
    (haligned : P.Alignment < alignof_object → AlignedFits P limit_size alignof_object)
    (hexact : LastExpandsExactly P h command limit_size preferred_size (priv_get_user_buffer P b)
      sizeof_object alignof_object) :
    Reused P h first blocks b u (allocate_or_expand P h command limit_size preferred_size
      (priv_get_user_buffer P b) sizeof_object alignof_object received) := by
  unfold allocate_or_expand
  split_ifs with hnew hover
  · exact (hrep.allocate_aligned_granted hlt (haligned hover)).reused hrep hlive
  · cases hfit : best_fit P h limit_size preferred_size with
    | some answer =>
      refine Granted.reused (n := 0) hrep (Or.inr ?_) hlive
      exact hrep.best_fit_fresh (Nat.zero_le _) (Nat.zero_le _) hfit
    | none =>
      exact hrep.expand_minimum_reused hlt hlive hle hfits
        (hexact fun _ => ⟨Nat.le_of_not_lt hover, hfit⟩)
  · exact hrep.expand_minimum_reused hlt hlive hle hfits (hexact fun h => absurd h hnew)

end Reuse

/-- The attempts of a command to expand only split exactly. -/
def CommandExact (P : Traits) (h : Heap) (command : allocation_type)
    (limit_size preferred_size reuse_ptr sizeof_object alignof_object : Nat) : Prop :=
  let alignof_object := max alignof_object P.Alignment
  let answer := priv_expand_both_sides P h command limit_size preferred_size reuse_ptr true
    sizeof_object alignof_object
  command.shrink_in_place = false → limit_size ≤ preferred_size →
    command.expand_fwd = true ∨ command.expand_bwd = true →
      ExpandsExactly P h command limit_size preferred_size reuse_ptr preferred_size sizeof_object
        alignof_object ∧
      (answer.2.1 = 0 → LastExpandsExactly P answer.1 command limit_size preferred_size reuse_ptr
        sizeof_object alignof_object)

/-- The sizes of a command do not wrap when they are rounded to units. -/
def CommandFits (P : Traits) (limit_size preferred_size alignof_object : Nat) : Prop :=
  limit_size ≤ preferred_size → Fits P preferred_size ∧
    (P.Alignment < alignof_object → AlignedFits P limit_size alignof_object)

/-- A shrink keeps the buffer, or fails and keeps everything. -/
theorem Rep.shrink_reused (hrep : Rep P h first blocks) (hlive : LiveAt P first blocks b u)
    (max_size preferred_size : Nat) :
    Reused P h first blocks b u
      ⟨(shrink P h (priv_get_user_buffer P b) max_size preferred_size).1,
        if (shrink P h (priv_get_user_buffer P b) max_size preferred_size).2.1 then
          priv_get_user_buffer P b else 0,
        (shrink P h (priv_get_user_buffer P b) max_size preferred_size).2.2,
        priv_get_user_buffer P b⟩ := by
  rcases hrep.shrink_spec hlive max_size preferred_size with
    ⟨_, h', blocks', hanswer, hop, hkeeps⟩ | ⟨_, hanswer⟩ | ⟨_, _, hanswer⟩
  · rw [hanswer]
    exact .in_place rfl rfl hop hkeeps
  · rw [hanswer]
    exact .in_place rfl rfl ((Operation.refl hrep).touch b u) (KeepsBytes.refl h b u u)
  · rw [hanswer]
    exact Reused.unchanged hrep rfl rfl b u

/-- A command on the buffer of a block. -/
theorem Rep.priv_allocate_reused (hrep : Rep P h first blocks)
    (hlt : stop P.Alignment first blocks < 2 ^ 64) (hlive : LiveAt P first blocks b u)
    (hfits : CommandFits P limit_size preferred_size alignof_object)
    (hexact : CommandExact P h command limit_size preferred_size (priv_get_user_buffer P b)
      sizeof_object alignof_object) :
    Reused P h first blocks b u (priv_allocate P h command limit_size preferred_size
      (priv_get_user_buffer P b) sizeof_object alignof_object) := by
  have hne := priv_get_user_buffer_ne_zero (P := P) b
  have haligned : limit_size ≤ preferred_size → P.Alignment < max alignof_object P.Alignment →
      AlignedFits P limit_size (max alignof_object P.Alignment) := by
    intro hle hover
    have hgt : P.Alignment < alignof_object := by omega
    rw [Nat.max_eq_left (Nat.le_of_lt hgt)]
    exact (hfits hle).2 hgt
  unfold priv_allocate
  simp only
  by_cases hshrink : command.shrink_in_place = true
  · rw [if_pos hshrink, if_neg hne]
    exact hrep.shrink_reused hlive _ _
  rw [if_neg hshrink]
  by_cases hless : preferred_size < limit_size
  · rw [if_pos hless]
    exact Reused.unchanged hrep rfl rfl b u
  rw [if_neg hless]
  have hle := Nat.le_of_not_lt hless
  by_cases hexpand : command.expand_fwd = true ∨ command.expand_bwd = true
  · rw [if_pos ⟨hne, hexpand⟩]
    obtain ⟨hfirst, hlast⟩ := hexact (Bool.eq_false_of_not_eq_true hshrink) hle hexpand
    have hattempted : Attempted P h first blocks b u
        (priv_expand_both_sides P h command limit_size preferred_size (priv_get_user_buffer P b) true
          sizeof_object (max alignof_object P.Alignment)).1
        (priv_expand_both_sides P h command limit_size preferred_size (priv_get_user_buffer P b) true
          sizeof_object (max alignof_object P.Alignment)).2.1 :=
      hrep.expand_attempted hlt hlive hle (hfits hle).1 hfirst
    by_cases hret : (priv_expand_both_sides P h command limit_size preferred_size
        (priv_get_user_buffer P b) true sizeof_object (max alignof_object P.Alignment)).2.1 = 0
    · rw [if_neg (not_not.mpr hret)]
      rw [hret] at hattempted
      obtain ⟨v, blocks', hop, huv, hkeeps⟩ := hattempted.of_null
      refine Reused.after hop huv hkeeps ?_
      refine hop.rep.allocate_or_expand_reused ?_ (hop.live_resized hlive) hle (hfits hle).1
        (haligned hle) (hlast hret)
      rw [stop, hop.units_eq]
      exact hlt
    · rw [if_pos hret]
      exact hattempted.reused _
  · rw [if_neg fun h => hexpand h.2]
    refine hrep.allocate_or_expand_reused hlt hlive hle (hfits hle).1 (haligned hle) ?_
    intro _ hbwd
    exact absurd (Or.inr hbwd) hexpand

/-- A command without a buffer to reuse grants the units of both sizes or answers
    null. -/
theorem Rep.priv_allocate_granted {n : Nat} (hrep : Rep P h first blocks)
    (hlt : stop P.Alignment first blocks < 2 ^ 64)
    (hlimit : n ≤ min (priv_get_total_units P limit_size) (min_units P limit_size))
    (hpreferred : n ≤ priv_get_total_units P preferred_size)
    (hfits : limit_size ≤ preferred_size → P.Alignment < alignof_object →
      AlignedFits P limit_size alignof_object) :
    Granted P h first blocks n
      (priv_allocate P h command limit_size preferred_size 0 sizeof_object alignof_object).heap
      (priv_allocate P h command limit_size preferred_size 0 sizeof_object alignof_object).ret := by
  unfold priv_allocate
  simp only
  by_cases hshrink : command.shrink_in_place = true
  · rw [if_pos hshrink, if_pos trivial]
    exact Or.inl ⟨rfl, rfl⟩
  rw [if_neg hshrink]
  by_cases hless : preferred_size < limit_size
  · rw [if_pos hless]
    exact Or.inl ⟨rfl, rfl⟩
  have hminimum : ∀ alignof_object received, expand_minimum P h command limit_size preferred_size 0
      sizeof_object alignof_object received = ⟨h, 0, received, 0⟩ :=
    fun _ _ => if_neg fun hne => hne.1 rfl
  rw [if_neg hless, if_neg fun hne => hne.1 rfl]
  unfold allocate_or_expand
  simp only [hminimum]
  split_ifs with hnew hover
  · have hgt : P.Alignment < alignof_object := by omega
    rw [Nat.max_eq_left (Nat.le_of_lt hgt)]
    exact (hrep.allocate_aligned_granted hlt (hfits (Nat.le_of_not_lt hless) hgt)).mono hlimit
  · cases hfit : best_fit P h limit_size preferred_size with
    | some answer =>
      exact Or.inr (hrep.best_fit_fresh (Nat.le_trans hlimit (Nat.min_le_left _ _)) hpreferred hfit)
    | none => exact Or.inl ⟨rfl, rfl⟩
  · exact Or.inl ⟨rfl, rfl⟩

end interprocess.rbtree_best_fit
